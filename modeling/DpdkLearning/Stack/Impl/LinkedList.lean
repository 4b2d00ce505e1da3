import Mathlib.Logic.Function.Basic

/-!
This module contains the macros `LL_ADD` and `LL_REMOVE`, which thread a list through the links of its
items. They are written out for each kind of item, which is a parameter here.
-/

namespace NgStack

structure LlLinks (α : Type) where
  next : Option α
  prev : Option α

/--
The links of all items, in a list or not, and the head of the list.
-/
structure LlHeap (α : Type) where
  links : α → LlLinks α
  list : Option α

namespace LlHeap

variable {α : Type} [DecidableEq α]

def next (s : LlHeap α) (item : α) : Option α :=
  (s.links item).next

def prev (s : LlHeap α) (item : α) : Option α :=
  (s.links item).prev

def setNext (s : LlHeap α) (item : α) (next : Option α) : LlHeap α :=
  { s with links := Function.update s.links item { s.links item with next } }

def setPrev (s : LlHeap α) (item : α) (prev : Option α) : LlHeap α :=
  { s with links := Function.update s.links item { s.links item with prev } }

def setList (s : LlHeap α) (list : Option α) : LlHeap α :=
  { s with list }

/--
`if (item != NULL) item->next = next;`
-/
def setNextOf (s : LlHeap α) (item next : Option α) : LlHeap α :=
  match item with
  | none => s
  | some item => s.setNext item next

/--
`if (item != NULL) item->prev = prev;`
-/
def setPrevOf (s : LlHeap α) (item prev : Option α) : LlHeap α :=
  match item with
  | none => s
  | some item => s.setPrev item prev

def llAdd (s : LlHeap α) (item : α) : LlHeap α :=
  let s := s.setPrev item none
  let s := s.setNext item s.list
  let s := s.setPrevOf s.list (some item)
  s.setList (some item)

def llRemove (s : LlHeap α) (item : α) : LlHeap α :=
  let s := s.setNextOf (s.prev item) (s.next item)
  let s := s.setPrevOf (s.next item) (s.prev item)
  let s := if s.list = some item then s.setList (s.next item) else s
  (s.setNext item none).setPrev item none

end LlHeap

end NgStack
