import DpdkLearning.Lib.DoublyLinked
import DpdkLearning.Lib.Machine
import DpdkLearning.Lib.ObjList
import DpdkLearning.Stack.Lemmas.LinkedList

/-!
This module contains that `LL_ADD` and `LL_REMOVE` keep a list, over any run that adds items that are not in
it and removes items that are.
-/

open Lib

namespace NgStack

variable {α : Type}

namespace LlHeap

/--
The links from the head on are those of a list that ends: along `next` its items are met one after the other
and none twice, and `prev` leads back.
-/
structure IsList (s : LlHeap α) (items : List α) : Prop where
  traverses : Traverses s.next s.list items
  nodup : items.Nodup
  inverse : ∀ a b, (a ∈ items ∧ s.next a = some b) ↔ (b ∈ items ∧ s.prev b = some a)
  prev_head : ∀ a, s.list = some a → s.prev a = none

def Holds (s : LlHeap α) (items : List α) : Prop :=
  DoublyLinked s.next s.prev s.list items

def Unlinked (s : LlHeap α) (item : α) : Prop :=
  s.next item = none ∧ s.prev item = none

variable {s : LlHeap α} {items : List α} {item a : α}

theorem Holds.isList (h : s.Holds items) : s.IsList items where
  traverses := h.traverses
  nodup := h.nodup
  inverse := fun _ _ => h.next_iff_prev
  prev_head := fun _ => h.prev_head

end LlHeap

variable [DecidableEq α]

inductive LlCall (α : Type) where
  | add (item : α)
  | remove (item : α)
  deriving DecidableEq

namespace LlCall

def run (s : LlHeap α) : LlCall α → LlHeap α
  | .add item => s.llAdd item
  | .remove item => s.llRemove item

/--
What the call does to the list of items that the links stand for.
-/
def after (items : List α) : LlCall α → List α
  | .add item => item :: items
  | .remove item => items.erase item

def Legal (items : List α) : LlCall α → Prop
  | .add item => item ∉ items
  | .remove item => item ∈ items

instance (items : List α) (call : LlCall α) : Decidable (call.Legal items) :=
  match call with
  | .add item => inferInstanceAs (Decidable (item ∉ items))
  | .remove item => inferInstanceAs (Decidable (item ∈ items))

end LlCall

/--
The calls on an empty list. Nothing is known of the links of items before they are added.
-/
def llRun (links : α → LlLinks α) (calls : List (LlCall α)) : LlHeap α :=
  calls.foldl LlCall.run { links, list := none }

def refList (calls : List (LlCall α)) : List α :=
  calls.foldl LlCall.after []

def LegalCalls (calls : List (LlCall α)) : Prop :=
  ∀ past call rest, calls = past ++ call :: rest → call.Legal (refList past)

namespace LlHeap

variable {s : LlHeap α} {items : List α} {item a : α}

theorem Holds.llAdd (h : s.Holds items) (hnew : item ∉ items) : (s.llAdd item).Holds (item :: items) :=
  h.add hnew (next_llAdd s item) (prev_llAdd s item)

theorem Holds.llRemove (h : s.Holds items) (hitem : item ∈ items)
    : (s.llRemove item).Holds (items.erase item) := by
  rw [Holds, list_llRemove]
  exact h.remove hitem (next_llRemove s item) (prev_llRemove s item)

theorem unlinked_llRemove (s : LlHeap α) (item : α) : (s.llRemove item).Unlinked item := by
  simp [Unlinked, next_llRemove, prev_llRemove]

theorem Unlinked.run {call : LlCall α} (ha : s.Unlinked a) (h : s.Holds items) (hlegal : call.Legal items)
    (hout : a ∉ items) (hnot : call ≠ .add a) : (call.run s).Unlinked a := by
  cases call with
  | add item =>
    have hne : a ≠ item := by
      rintro rfl
      contradiction
    have hhead : s.list ≠ some a := fun heq => hout (h.mem_of_head heq)
    simpa [Unlinked, LlCall.run, next_llAdd, prev_llAdd, hne, hhead] using ha
  | remove item =>
    have hprev : s.prev item ≠ some a := fun heq => hout (h.next_iff_prev.mpr ⟨hlegal, heq⟩).1
    have hnext : s.next item ≠ some a := fun heq => hout (h.next_iff_prev.mp ⟨hlegal, heq⟩).1
    simp only [Unlinked, LlCall.run, next_llRemove, prev_llRemove, hprev, hnext, if_false]
    split
    . exact ⟨rfl, rfl⟩
    . exact ha

theorem Holds.run {call : LlCall α} (h : s.Holds items) (hlegal : call.Legal items)
    : (call.run s).Holds (call.after items) := by
  cases call with
  | add item => exact h.llAdd hlegal
  | remove item => exact h.llRemove hlegal

end LlHeap

theorem refList_concat (calls : List (LlCall α)) (call : LlCall α)
    : refList (calls ++ [call]) = call.after (refList calls) := by
  simp [refList]

theorem llRun_concat (links : α → LlLinks α) (calls : List (LlCall α)) (call : LlCall α)
    : llRun links (calls ++ [call]) = call.run (llRun links calls) := by
  simp [llRun]

theorem llRun_holds (links : α → LlLinks α) {calls : List (LlCall α)} (hlegal : LegalCalls calls)
    : (llRun links calls).Holds (refList calls) := by
  induction calls using List.reverseRecOn with
  | nil => exact .nil
  | append_singleton calls call ih =>
    rcases forall_split_concat_iff.mp hlegal with ⟨hpast, hlast⟩
    rw [llRun_concat, refList_concat]
    exact (ih hpast).run hlast

theorem llRun_removed (links : α → LlLinks α) {calls : List (LlCall α)} (hlegal : LegalCalls calls)
    {past rest : List (LlCall α)} {item : α} (hsplit : calls = past ++ .remove item :: rest)
    (hnot : .add item ∉ rest) : item ∉ refList calls ∧ (llRun links calls).Unlinked item := by
  subst hsplit
  induction rest using List.reverseRecOn with
  | nil =>
    have hpast := (forall_split_concat_iff.mp hlegal).1
    rw [llRun_concat, refList_concat]
    exact ⟨(llRun_holds links hpast).nodup.not_mem_erase, LlHeap.unlinked_llRemove _ item⟩
  | append_singleton rest call ih =>
    rw [← List.cons_append, ← List.append_assoc] at hlegal ⊢
    rcases forall_split_concat_iff.mp hlegal with ⟨hpast, hlast⟩
    rw [List.mem_append, not_or, List.mem_singleton] at hnot
    rcases ih hnot.1 hpast with ⟨hout, hunlinked⟩
    rw [llRun_concat, refList_concat]
    refine ⟨?_, hunlinked.run (llRun_holds links hpast) hlast hout (Ne.symm hnot.2)⟩
    cases call with
    | add other =>
      have hne : item ≠ other := by
        rintro rfl
        exact hnot.2 rfl
      simp [LlCall.after, hne, hout]
    | remove other => exact fun hmem => hout (List.mem_of_mem_erase hmem)

/--
After any additions of items that are not in the list and removals of items that are, the links are those of
the list that prepending and deleting yields, and an item that was removed and not added since has none.
-/
theorem llRun_isList (links : α → LlLinks α) (calls : List (LlCall α)) (hlegal : LegalCalls calls)
    : (llRun links calls).IsList (refList calls)
      ∧ ∀ past item rest, calls = past ++ .remove item :: rest → .add item ∉ rest
        → (llRun links calls).Unlinked item :=
  ⟨(llRun_holds links hlegal).isList,
    fun _ _ _ hsplit hnot => (llRun_removed links hlegal hsplit hnot).2⟩

/-- The item in the middle goes, then the one at the head, and it comes back. -/
theorem llRun_isList_middle
    : (llRun (fun _ => ⟨some 0, some 0⟩)
          [.add 1, .add 2, .add 3, .remove 2, .remove 3, .add 3]).IsList [3, 1]
        ∧ (llRun (fun _ => ⟨some 0, some 0⟩)
          [.add 1, .add 2, .add 3, .remove 2, .remove 3, .add 3]).Unlinked 2 := by
  have hlegal : LegalCalls [.add 1, .add 2, .add 3, .remove 2, .remove 3, .add 3] := by
    have htest : everywhere (fun past call => decide (LlCall.Legal (refList past) call))
        [.add 1, .add 2, .add 3, .remove 2, .remove 3, .add 3] = true := by
      decide
    intro past call rest hsplit
    exact of_decide_eq_true (of_everywhere htest hsplit)
  rcases llRun_isList (fun _ => ⟨some 0, some 0⟩) _ hlegal with ⟨hlist, hremoved⟩
  exact ⟨hlist, hremoved [.add 1, .add 2, .add 3] 2 [.remove 3, .add 3] rfl (by decide)⟩

namespace LlHeap

/--
The links are those of the objects in a list of the heap.
-/
def Represents {β : Type} (s : LlHeap Nat) (l : ObjList β) : Prop :=
  s.Holds l.addrs

namespace Represents

variable {β : Type} {s : LlHeap Nat} {l : ObjList β}

theorem llAdd (h : s.Represents l) (x : β) : (s.llAdd l.next).Represents (l.add x) := by
  apply Holds.llAdd h
  rw [← ObjList.get?_eq_none_iff, ObjList.get?_next]

theorem llRemove (h : s.Represents l) {a : Nat} (ha : (l.get? a).isSome)
    : (s.llRemove a).Represents (l.remove a) := by
  rw [Represents, ObjList.addrs_remove]
  exact Holds.llRemove h ((ObjList.isSome_get?_iff l a).mp ha)

theorem traverses (h : s.Represents l) : Traverses s.next s.list l.addrs :=
  DoublyLinked.traverses h

end Represents

end LlHeap

end NgStack
