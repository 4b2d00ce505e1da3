import Mathlib.Data.List.Find
import Mathlib.Data.List.Nodup
import Mathlib.Logic.Function.Basic

/-!
This module contains a list of heap objects, newest first. Every object has an address, which is
never handed out a second time, so that an address denotes at most one object of the list.
-/

namespace Lib

structure ObjList (α : Type) where
  /--
  The address of the next object.
  -/
  next : Nat
  cells : List (Nat × α)
  fresh : ∀ c ∈ cells, c.1 < next
  newestFirst : (cells.map Prod.fst).Pairwise (· > ·)

namespace ObjList

variable {α : Type}

def empty : ObjList α where
  next := 0
  cells := []
  fresh := by simp
  newestFirst := by simp

def addrs (l : ObjList α) : List Nat :=
  l.cells.map Prod.fst

def get? (l : ObjList α) (a : Nat) : Option α :=
  (l.cells.find? (fun c => c.1 == a)).map Prod.snd

def find? (l : ObjList α) (p : α → Bool) : Option (Nat × α) :=
  l.cells.find? (fun c => p c.2)

def add (l : ObjList α) (x : α) : ObjList α where
  next := l.next + 1
  cells := (l.next, x) :: l.cells
  fresh := by
    intro c hc
    rw [List.mem_cons] at hc
    cases hc with
    | inl h => simp [h]
    | inr h =>
      have := l.fresh c h
      omega
  newestFirst := by
    rw [List.map_cons, List.pairwise_cons]
    constructor
    . intro a ha
      rw [List.mem_map] at ha
      rcases ha with ⟨c, hc, rfl⟩
      apply l.fresh c hc
    . apply l.newestFirst

def modify (l : ObjList α) (a : Nat) (f : α → α) : ObjList α where
  next := l.next
  cells := l.cells.map (fun c => if c.1 = a then (c.1, f c.2) else c)
  fresh := by
    intro c hc
    rw [List.mem_map] at hc
    rcases hc with ⟨d, hd, rfl⟩
    have := l.fresh d hd
    split <;> assumption
  newestFirst := by
    have : Prod.fst ∘ (fun c : Nat × α => if c.1 = a then (c.1, f c.2) else c) = Prod.fst := by
      funext c
      dsimp
      split <;> rfl
    rw [List.map_map, this]
    apply l.newestFirst

def remove (l : ObjList α) (a : Nat) : ObjList α where
  next := l.next
  cells := l.cells.filter (fun c => c.1 != a)
  fresh := by
    intro c hc
    exact l.fresh c (List.mem_filter.mp hc).1
  newestFirst := l.newestFirst.sublist (List.filter_sublist.map Prod.fst)

theorem nodup (l : ObjList α) : (l.cells.map Prod.fst).Nodup :=
  l.newestFirst.imp (fun h => Nat.ne_of_gt h)

theorem cell_ext {l : ObjList α} {c d : Nat × α} (hc : c ∈ l.cells) (hd : d ∈ l.cells)
    (h : c.1 = d.1) : c = d :=
  List.inj_on_of_nodup_map l.nodup hc hd h

theorem get?_eq_some_iff (l : ObjList α) (a : Nat) (x : α)
    : l.get? a = some x ↔ (a, x) ∈ l.cells := by
  unfold get?
  constructor
  . intro h
    rw [Option.map_eq_some_iff] at h
    rcases h with ⟨c, hc, rfl⟩
    have hmem := List.mem_of_find?_eq_some hc
    have heq := List.find?_some hc
    rw [beq_iff_eq] at heq
    rw [← heq]
    exact hmem
  . intro h
    cases hfind : l.cells.find? (fun c => c.1 == a) with
    | none =>
      rw [List.find?_eq_none] at hfind
      specialize hfind (a, x) h
      simp at hfind
    | some c =>
      have hmem := List.mem_of_find?_eq_some hfind
      have heq := List.find?_some hfind
      rw [beq_iff_eq] at heq
      rw [cell_ext hmem h heq]
      rfl

theorem get?_eq_none_iff (l : ObjList α) (a : Nat) : l.get? a = none ↔ a ∉ l.addrs := by
  simp only [get?, Option.map_eq_none_iff, List.find?_eq_none, beq_iff_eq, addrs, List.mem_map,
    not_exists, not_and]

theorem isSome_get?_iff (l : ObjList α) (a : Nat) : (l.get? a).isSome ↔ a ∈ l.addrs := by
  rw [← not_iff_not, ← get?_eq_none_iff]
  simp

theorem mem_addrs_of_get? {l : ObjList α} {a : Nat} {x : α} (h : l.get? a = some x)
    : a ∈ l.addrs := by
  rw [← isSome_get?_iff, h]
  rfl

theorem lt_next_of_get? {l : ObjList α} {a : Nat} {x : α} (h : l.get? a = some x) : a < l.next := by
  rw [get?_eq_some_iff] at h
  exact l.fresh (a, x) h

theorem get?_next (l : ObjList α) : l.get? l.next = none := by
  cases h : l.get? l.next with
  | none => rfl
  | some x =>
    have := lt_next_of_get? h
    omega

theorem get?_of_find? {l : ObjList α} {p : α → Bool} {a : Nat} {x : α} (h : l.find? p = some (a, x))
    : l.get? a = some x := by
  rw [get?_eq_some_iff]
  exact List.mem_of_find?_eq_some h

theorem find?_some {l : ObjList α} {p : α → Bool} {a : Nat} {x : α} (h : l.find? p = some (a, x))
    : p x = true := by
  have := List.find?_some h
  simpa using this

/-- A search ends at the newest object that passes. -/
theorem le_of_find? {l : ObjList α} {p : α → Bool} {a b : Nat} {x y : α}
    (h : l.find? p = some (a, x)) (hb : l.get? b = some y) (hy : p y = true) : b ≤ a := by
  rw [get?_eq_some_iff] at hb
  unfold find? at h
  rw [List.find?_eq_some_iff_append] at h
  rcases h with ⟨_, before, after, hcells, hnone⟩
  have hsorted := l.newestFirst
  rw [hcells, List.map_append, List.map_cons, List.pairwise_append, List.pairwise_cons] at hsorted
  rw [hcells, List.mem_append, List.mem_cons] at hb
  rcases hb with hb | hb | hb
  . specialize hnone (b, y) hb
    simp [hy] at hnone
  . rw [Prod.mk.injEq] at hb
    omega
  . have := hsorted.2.1.1 b (List.mem_map_of_mem hb)
    dsimp only at this
    omega

theorem find?_eq_some_iff (l : ObjList α) (p : α → Bool) (a : Nat) (x : α)
    : l.find? p = some (a, x)
        ↔ l.get? a = some x ∧ p x = true ∧ ∀ b y, l.get? b = some y → p y = true → b ≤ a := by
  constructor
  . intro h
    exact ⟨get?_of_find? h, find?_some h, fun b y => le_of_find? h⟩
  . rintro ⟨hget, hx, hnewest⟩
    cases hfind : l.find? p with
    | none =>
      unfold find? at hfind
      rw [List.find?_eq_none] at hfind
      specialize hfind (a, x) ((get?_eq_some_iff l a x).mp hget)
      contradiction
    | some c =>
      rcases c with ⟨b, y⟩
      have hle := hnewest b y (get?_of_find? hfind) (find?_some hfind)
      have hge := le_of_find? hfind hget hx
      obtain rfl : a = b := by omega
      rw [get?_of_find? hfind] at hget
      cases hget
      rfl

theorem find?_eq_none_iff (l : ObjList α) (p : α → Bool)
    : l.find? p = none ↔ ∀ a x, l.get? a = some x → p x = false := by
  simp only [find?, List.find?_eq_none, get?_eq_some_iff, Bool.not_eq_true]
  constructor
  . intro h a x hx
    exact h (a, x) hx
  . intro h c hc
    exact h c.1 c.2 hc

@[simp]
theorem get?_empty (a : Nat) : (empty : ObjList α).get? a = none := by
  rfl

theorem get?_add (l : ObjList α) (x : α) (a : Nat)
    : (l.add x).get? a = if a = l.next then some x else l.get? a := by
  unfold get? add
  split
  . next h => simp [h]
  . next h =>
    have : (l.next == a) = false := by
      rw [beq_eq_false_iff_ne]
      exact fun heq => h heq.symm
    simp [this]

@[simp]
theorem get?_add_self (l : ObjList α) (x : α) : (l.add x).get? l.next = some x := by
  simp [get?_add]

theorem get?_add_of_get? {l : ObjList α} {a : Nat} {y : α} (x : α) (h : l.get? a = some y)
    : (l.add x).get? a = some y := by
  have := lt_next_of_get? h
  rw [get?_add, if_neg (by omega)]
  exact h

theorem get?_modify (l : ObjList α) (a b : Nat) (f : α → α)
    : (l.modify a f).get? b = if b = a then (l.get? b).map f else l.get? b := by
  unfold get? modify
  have hfun : (fun c : Nat × α => c.1 == b) ∘ (fun c => if c.1 = a then (c.1, f c.2) else c)
      = (fun c => c.1 == b) := by
    funext c
    dsimp
    split <;> rfl
  rw [List.find?_map, hfun]
  cases hfind : l.cells.find? (fun c => c.1 == b) with
  | none => simp
  | some c =>
    have heq := List.find?_some hfind
    rw [beq_iff_eq] at heq
    by_cases h : b = a
    . simp [heq, h]
    . simp [heq, h]

@[simp]
theorem get?_modify_self (l : ObjList α) (a : Nat) (f : α → α)
    : (l.modify a f).get? a = (l.get? a).map f := by
  simp [get?_modify]

theorem get?_modify_of_ne (l : ObjList α) {a b : Nat} (f : α → α) (h : b ≠ a)
    : (l.modify a f).get? b = l.get? b := by
  simp [get?_modify, h]

@[simp]
theorem addrs_modify (l : ObjList α) (a : Nat) (f : α → α) : (l.modify a f).addrs = l.addrs := by
  unfold addrs modify
  rw [List.map_map]
  congr 1
  funext c
  dsimp
  split <;> rfl

@[ext]
theorem ext {l k : ObjList α} (hnext : l.next = k.next) (hcells : l.cells = k.cells) : l = k := by
  cases l
  cases k
  cases hnext
  cases hcells
  rfl

theorem modify_modify (l : ObjList α) (a : Nat) (f g : α → α)
    : (l.modify a f).modify a g = l.modify a (g ∘ f) := by
  apply ext
  . rfl
  . unfold modify
    dsimp
    rw [List.map_map]
    apply List.map_congr_left
    intro c _
    by_cases h : c.1 = a <;> simp [h]

theorem modify_eq_self {l : ObjList α} {a : Nat} {f : α → α}
    (h : ∀ x, l.get? a = some x → f x = x) : l.modify a f = l := by
  apply ext
  . rfl
  . unfold modify
    dsimp
    conv_rhs => rw [← List.map_id l.cells]
    apply List.map_congr_left
    intro c hc
    dsimp
    split
    . next heq =>
      rw [h c.2]
      rw [get?_eq_some_iff, ← heq]
      exact hc
    . rfl

/-- What is done to an object right after it was added can be done before. -/
theorem modify_add (l : ObjList α) (x : α) (f : α → α)
    : (l.add x).modify l.next f = l.add (f x) := by
  apply ext
  . rfl
  . unfold modify add
    simp only [List.map_cons, ↓reduceIte, List.cons.injEq, true_and]
    conv_rhs => rw [← List.map_id l.cells]
    apply List.map_congr_left
    intro c hc
    have := l.fresh c hc
    rw [if_neg (by omega)]
    rfl

theorem get?_remove (l : ObjList α) (a b : Nat)
    : (l.remove a).get? b = if b = a then none else l.get? b := by
  split
  . next h =>
    rw [get?_eq_none_iff, h]
    simp [addrs, remove]
  . next h =>
    unfold get? remove
    rw [List.find?_filter]
    congr 2
    funext c
    by_cases hc : c.1 = b
    . simp [hc, h]
    . simp [hc]

@[simp]
theorem get?_remove_self (l : ObjList α) (a : Nat) : (l.remove a).get? a = none := by
  simp [get?_remove]

theorem addrs_remove (l : ObjList α) (a : Nat) : (l.remove a).addrs = l.addrs.erase a := by
  rw [addrs, addrs, l.nodup.erase_eq_filter, List.filter_map]
  rfl

theorem get?_remove_of_ne (l : ObjList α) {a b : Nat} (h : b ≠ a)
    : (l.remove a).get? b = l.get? b := by
  simp [get?_remove, h]

theorem get?_of_get?_remove {l : ObjList α} {a b : Nat} {x : α} (h : (l.remove a).get? b = some x)
    : b ≠ a ∧ l.get? b = some x := by
  rw [get?_remove] at h
  split at h
  . contradiction
  . next hne => exact ⟨hne, h⟩

section

variable {β : Type} {l : ObjList α} {a : Nat} {x : α}

/-- What is read of each object after a change of one of them. -/
theorem map_get?_modify (g : α → β) (f : α → α) (h : l.get? a = some x)
    : (fun b => ((l.modify a f).get? b).map g)
        = Function.update (fun b => (l.get? b).map g) a (some (g (f x))) := by
  funext b
  by_cases hb : b = a
  . subst hb
    simp [h]
  . rw [Function.update_of_ne hb, get?_modify_of_ne _ _ hb]

theorem map_get?_add (g : α → β)
    : (fun b => ((l.add x).get? b).map g)
        = Function.update (fun b => (l.get? b).map g) l.next (some (g x)) := by
  funext b
  rw [get?_add]
  by_cases hb : b = l.next
  . subst hb
    simp
  . rw [Function.update_of_ne hb, if_neg hb]

theorem map_get?_remove (g : α → β)
    : (fun b => ((l.remove a).get? b).map g) = Function.update (fun b => (l.get? b).map g) a none := by
  funext b
  by_cases hb : b = a
  . subst hb
    simp
  . rw [Function.update_of_ne hb, get?_remove_of_ne _ hb]

end

/-- A change that a search does not look at leaves the search where it was. -/
theorem find?_modify (l : ObjList α) (a : Nat) (f : α → α) (p : α → Bool)
    (hf : ∀ x, l.get? a = some x → p (f x) = p x)
    : (l.modify a f).find? p = (l.find? p).map (fun c => if c.1 = a then (c.1, f c.2) else c) := by
  unfold find? modify
  rw [List.find?_map]
  congr 1
  apply List.find?_congr
  intro c hc
  dsimp
  split
  . next h =>
    apply hf
    rw [get?_eq_some_iff, ← h]
    exact hc
  . rfl

end ObjList

end Lib
