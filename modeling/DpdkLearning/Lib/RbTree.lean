import Mathlib.Data.List.Nodup
import Mathlib.Order.Lattice

/-!
This module contains red-black trees and the paths to their subtrees: what a path says about the labels
around a subtree, when a subtree fits at its end, and the search for a key.
-/

namespace Lib

inductive Dir where
  | left
  | right
  deriving DecidableEq, Repr

namespace Dir

def flip : Dir → Dir
  | left => right
  | right => left

theorem eq_flip_of_ne {d e : Dir} (h : d ≠ e) : d = e.flip := by
  cases d <;> cases e <;> first | rfl | exact absurd rfl h

/--
Of two things the one on this side.
-/
def pick {α : Type} (d : Dir) (l r : α) : α :=
  match d with
  | left => l
  | right => r

end Dir

inductive Color where
  | red
  | black
  deriving DecidableEq, Repr

/--
What a node adds to the black height.
-/
def Color.weight : Color → Nat
  | red => 0
  | black => 1

inductive RbTree (α : Type) where
  | leaf
  | node (color : Color) (left : RbTree α) (label : α) (right : RbTree α)
  deriving Repr

namespace RbTree

variable {α : Type}

/--
The node with `near` on the side `d` and `far` on the other one.
-/
def branch (d : Dir) (c : Color) (near : RbTree α) (a : α) (far : RbTree α) : RbTree α :=
  node c (d.pick near far) a (d.pick far near)

def toList : RbTree α → List α
  | leaf => []
  | node _ l a r => l.toList ++ a :: r.toList

def isRed : RbTree α → Bool
  | node .red _ _ _ => true
  | _ => false

def blacken : RbTree α → RbTree α
  | leaf => leaf
  | node _ l a r => node .black l a r

/--
The tree has a root of the colour and is red-black with the given black height: a red node has no red
child.
-/
inductive RedBlack : RbTree α → Color → Nat → Prop where
  | leaf : RedBlack leaf .black 0
  | node {c cl cr : Color} {l r : RbTree α} {a : α} {n : Nat} (hl : RedBlack l cl n) (hr : RedBlack r cr n)
    (hred : c = .red → cl = .black ∧ cr = .black) : RedBlack (node c l a r) c (n + c.weight)

/--
A node on the way to a subtree: the side the subtree is on, and the other child.
-/
structure Frame (α : Type) where
  dir : Dir
  color : Color
  label : α
  sibling : RbTree α

def Frame.fill (f : Frame α) (t : RbTree α) : RbTree α :=
  branch f.dir f.color t f.label f.sibling

/--
The tree with the subtree at the end of the path, the nearest node first.
-/
def plug (t : RbTree α) : List (Frame α) → RbTree α
  | [] => t
  | f :: p => plug (f.fill t) p

/--
A subtree with that root and that black height fits at the end of the path of a tree with a black root.
-/
inductive Fits : List (Frame α) → Color → Nat → Prop where
  | root {n : Nat} : Fits [] .black n
  | frame {d : Dir} {c cs ct : Color} {a : α} {s : RbTree α} {p : List (Frame α)} {n : Nat}
    (hs : RedBlack s cs n) (hp : Fits p c (n + c.weight)) (hred : c = .red → cs = .black ∧ ct = .black)
    : Fits (⟨d, c, a, s⟩ :: p) ct n

/--
The label at the root, if any.
-/
def top : RbTree α → Option α
  | leaf => none
  | node _ _ a _ => some a

/--
The label at the end of the path, if any.
-/
def pathTop : List (Frame α) → Option α
  | [] => none
  | f :: _ => some f.label

@[simp]
theorem top_branch (d : Dir) (c : Color) (near far : RbTree α) (a : α)
    : (branch d c near a far).top = some a := by
  rfl

@[simp]
theorem toList_branch (d : Dir) (c : Color) (near far : RbTree α) (a : α)
    : (branch d c near a far).toList
        = d.pick (near.toList ++ a :: far.toList) (far.toList ++ a :: near.toList) := by
  cases d <;> rfl

theorem branch_flip (d : Dir) (c : Color) (near far : RbTree α) (a : α)
    : branch d.flip c far a near = branch d c near a far := by
  cases d <;> rfl

theorem blacken_branch (d : Dir) (c : Color) (near far : RbTree α) (a : α)
    : (branch d c near a far).blacken = branch d .black near a far := by
  rfl

@[simp]
theorem toList_blacken (t : RbTree α) : t.blacken.toList = t.toList := by
  cases t <;> rfl

theorem exists_branch (d : Dir) (c : Color) (l r : RbTree α) (a : α)
    : ∃ near far, node c l a r = branch d c near a far := by
  cases d with
  | left => exact ⟨l, r, rfl⟩
  | right => exact ⟨r, l, rfl⟩

theorem exists_red_branch {t : RbTree α} (h : t.isRed = true) (d : Dir)
    : ∃ near a far, t = branch d .red near a far := by
  rcases t with _ | ⟨c, l, a, r⟩
  . contradiction
  . cases c with
    | red =>
      rcases exists_branch d .red l r a with ⟨near, far, heq⟩
      exact ⟨near, a, far, heq⟩
    | black => contradiction

theorem toList_fill (f : Frame α) (t : RbTree α)
    : (f.fill t).toList
        = f.dir.pick (t.toList ++ f.label :: f.sibling.toList) (f.sibling.toList ++ f.label :: t.toList) :=
  toList_branch ..

theorem mem_branch {d : Dir} {c : Color} {near far : RbTree α} {a x : α}
    : x ∈ (branch d c near a far).toList ↔ x = a ∨ x ∈ near.toList ∨ x ∈ far.toList := by
  cases d <;> simp [Dir.pick] <;> tauto

theorem branch_perm (d : Dir) (c : Color) (near far : RbTree α) (a : α)
    : (branch d c near a far).toList.Perm (a :: (near.toList ++ far.toList)) := by
  rw [toList_branch]
  cases d with
  | left => exact List.perm_middle
  | right => exact List.perm_middle.trans (List.perm_append_comm.cons a)

theorem nodup_branch {d : Dir} {c : Color} {near far : RbTree α} {a : α}
    : (branch d c near a far).toList.Nodup
        ↔ a ∉ near.toList ∧ a ∉ far.toList ∧ near.toList.Nodup ∧ far.toList.Nodup
          ∧ near.toList.Disjoint far.toList := by
  rw [(branch_perm ..).nodup_iff, List.nodup_cons, List.nodup_append', List.mem_append, not_or, and_assoc]

theorem mem_of_top {t : RbTree α} {a : α} (h : t.top = some a) : a ∈ t.toList := by
  cases t with
  | leaf => contradiction
  | node =>
    cases h
    simp [toList]

section Path

variable {t u : RbTree α} {f : Frame α} {p q : List (Frame α)} {x : α}

/--
The labels to the left of the subtree.
-/
def before : List (Frame α) → List α
  | [] => []
  | f :: p => before p ++ f.dir.pick [] (f.sibling.toList ++ [f.label])

/--
The labels to the right of the subtree.
-/
def after : List (Frame α) → List α
  | [] => []
  | f :: p => f.dir.pick (f.label :: f.sibling.toList) [] ++ after p

/--
The labels of the tree that the subtree does not have.
-/
def around : List (Frame α) → List α
  | [] => []
  | f :: p => f.label :: (f.sibling.toList ++ around p)

theorem top_plug_ne_none (h : t.top ≠ none) : (plug t p).top ≠ none := by
  induction p generalizing t with
  | nil => exact h
  | cons f p ih => exact ih (Option.some_ne_none _)

/-- The root of the tree is on the path, unless the path is empty. -/
theorem exists_top_plug (t : RbTree α) (f : Frame α) (p : List (Frame α))
    : ∃ x ∈ around (f :: p), (plug t (f :: p)).top = some x := by
  induction p generalizing t f with
  | nil => exact ⟨f.label, List.mem_cons_self, rfl⟩
  | cons g p ih =>
    rcases ih (f.fill t) g with ⟨x, hx, htop⟩
    exact ⟨x, List.mem_cons_of_mem _ (List.mem_append_right _ hx), htop⟩

theorem length_le_around (p : List (Frame α)) : p.length ≤ (around p).length := by
  induction p with
  | nil => exact Nat.le_refl 0
  | cons f p ih =>
    simp only [around, List.length_cons, List.length_append]
    omega

theorem plug_append (t : RbTree α) (p q : List (Frame α)) : plug t (p ++ q) = plug (plug t p) q := by
  induction p generalizing t with
  | nil => rfl
  | cons f p ih => exact ih _

theorem toList_plug (t : RbTree α) (p : List (Frame α))
    : (plug t p).toList = before p ++ t.toList ++ after p := by
  induction p generalizing t with
  | nil => simp [plug, before, after]
  | cons f p ih =>
    rw [plug, ih, toList_fill]
    cases h : f.dir <;> simp [before, after, h, Dir.pick]

/-- The labels of a tree depend on those of a subtree only. -/
theorem toList_plug_congr (h : t.toList = u.toList) (p : List (Frame α))
    : (plug t p).toList = (plug u p).toList := by
  rw [toList_plug, toList_plug, h]

theorem before_append (q p : List (Frame α)) : before (q ++ p) = before p ++ before q := by
  induction q with
  | nil => simp [before]
  | cons f q ih => simp [before, ih]

theorem plug_perm (t : RbTree α) (p : List (Frame α)) : (plug t p).toList.Perm (t.toList ++ around p) := by
  induction p generalizing t with
  | nil => simp [plug, around]
  | cons f p ih =>
    calc (plug (f.fill t) p).toList
      List.Perm _ ((f.fill t).toList ++ around p) := ih _
      List.Perm _ (f.label :: (t.toList ++ f.sibling.toList) ++ around p) := (branch_perm ..).append_right _
      _ = f.label :: (t.toList ++ (f.sibling.toList ++ around p)) := by simp
      List.Perm _ (t.toList ++ f.label :: (f.sibling.toList ++ around p)) := List.perm_middle.symm

theorem mem_plug : x ∈ (plug t p).toList ↔ x ∈ t.toList ∨ x ∈ around p := by
  rw [(plug_perm t p).mem_iff, List.mem_append]

/-- There are no more nodes on the path than in the tree. -/
theorem length_le_plug (t : RbTree α) (p : List (Frame α))
    : p.length + t.toList.length ≤ (plug t p).toList.length := by
  have hperm := (plug_perm t p).length_eq
  have hpath := length_le_around p
  rw [List.length_append] at hperm
  omega

theorem mem_around : x ∈ around p ↔ x ∈ before p ∨ x ∈ after p := by
  have hperm := (plug_perm leaf p).mem_iff (a := x)
  rw [toList_plug] at hperm
  simpa [toList] using hperm.symm

theorem exists_plug (h : x ∈ t.toList) : ∃ c l r p, t = plug (node c l x r) p := by
  induction t with
  | leaf => simp [toList] at h
  | node c l a r ihl ihr =>
    rw [toList, List.mem_append, List.mem_cons] at h
    rcases h with h | rfl | h
    . rcases ihl h with ⟨c', l', r', p, rfl⟩
      refine ⟨c', l', r', p ++ [⟨.left, c, a, r⟩], ?_⟩
      rw [plug_append]
      rfl
    . exact ⟨c, l, r, [], rfl⟩
    . rcases ihr h with ⟨c', l', r', p, rfl⟩
      refine ⟨c', l', r', p ++ [⟨.right, c, a, l⟩], ?_⟩
      rw [plug_append]
      rfl

theorem nodup_plug
    : (plug t p).toList.Nodup ↔ t.toList.Nodup ∧ (around p).Nodup ∧ t.toList.Disjoint (around p) := by
  rw [(plug_perm t p).nodup_iff, List.nodup_append']

section Erase

variable [DecidableEq α] {a b : α} {d : Dir} {c c' : Color} {l r : RbTree α}

/-- A label is taken out of the tree when it is taken out of a subtree. -/
theorem toList_plug_erase (hmem : a ∈ t.toList) (ha : a ∉ around p) (h : u.toList = t.toList.erase a)
    : (plug u p).toList = (plug t p).toList.erase a := by
  rw [mem_around, not_or] at ha
  rw [toList_plug, toList_plug, List.append_assoc, List.append_assoc, List.erase_append_right _ ha.1,
    List.erase_append_left _ hmem, h]

theorem toList_erase_outer (ha : a ∉ t.toList) : t.toList = (branch d c leaf a t).toList.erase a := by
  cases d with
  | left => simp [Dir.pick, toList]
  | right => simp [Dir.pick, toList, List.erase_append_right _ ha]

/-- The successor of a label takes its place. -/
theorem toList_erase_inner (ha : a ∉ l.toList) (hq : before q = []) (hr : r = plug (node c' leaf b t) q)
    : (node c l b (plug t q)).toList = (node c l a r).toList.erase a := by
  simp [hr, toList, toList_plug, hq, List.erase_append_right _ ha]

end Erase

end Path

section Search

variable {κ : Type} [LinearOrder κ] {key : α → κ} {k : κ} {t u : RbTree α} {p q : List (Frame α)}

/--
The search for a key goes on below the subtree at the end of a path. It ends at a leaf or at the node with
the key.
-/
def search (key : α → κ) (k : κ) : RbTree α → List (Frame α) → RbTree α × List (Frame α)
  | leaf, p => (leaf, p)
  | node c l a r, p =>
    if k < key a then
      search key k l (⟨.left, c, a, r⟩ :: p)
    else if key a < k then
      search key k r (⟨.right, c, a, l⟩ :: p)
    else
      (node c l a r, p)

/--
The labels are in the order of their keys, and no two have the same one.
-/
def Sorted (key : α → κ) (t : RbTree α) : Prop :=
  (t.toList.map key).Pairwise (· < ·)

theorem Sorted.congr {key' : α → κ} (h : Sorted key t) (hkey : ∀ x ∈ t.toList, key' x = key x)
    : Sorted key' t := by
  rw [Sorted, List.map_congr_left hkey]
  exact h

theorem Sorted.sublist (h : Sorted key t) (hsub : u.toList.Sublist t.toList) : Sorted key u :=
  List.Pairwise.sublist (hsub.map key) h

theorem Sorted.of_plug (h : Sorted key (plug t p)) : Sorted key t := by
  rw [Sorted, toList_plug, List.map_append, List.map_append, List.pairwise_append,
    List.pairwise_append] at h
  exact h.1.2.1

theorem Sorted.of_node {c : Color} {l r : RbTree α} {a : α} (h : Sorted key (node c l a r))
    : (∀ x ∈ l.toList, key x < key a) ∧ ∀ x ∈ r.toList, key a < key x := by
  rw [Sorted, toList, List.map_append, List.map_cons, List.pairwise_append, List.pairwise_cons] at h
  constructor
  . intro x hx
    exact h.2.2 _ (List.mem_map_of_mem hx) _ List.mem_cons_self
  . intro x hx
    exact h.2.1.1 _ (List.mem_map_of_mem hx)

theorem plug_search (h : search key k t p = (u, q)) : plug u q = plug t p := by
  induction t generalizing p with
  | leaf =>
    cases h
    rfl
  | node c l a r ihl ihr =>
    rw [search] at h
    split at h
    . exact ihl h
    . split at h
      . exact ihr h
      . cases h
        rfl

/-- A search that ends at a leaf has passed the smaller keys on the left and the greater ones on the right. -/
theorem search_leaf (hs : Sorted key (plug t p)) (h : search key k t p = (leaf, q))
    (hb : ∀ x ∈ before p, key x < k) (ha : ∀ x ∈ after p, k < key x)
    : (∀ x ∈ before q, key x < k) ∧ ∀ x ∈ after q, k < key x := by
  -- On the way to the left everything to the right is greater, and the other way round.
  induction t generalizing p with
  | leaf =>
    cases h
    exact ⟨hb, ha⟩
  | node c l a r ihl ihr =>
    have hord := hs.of_plug.of_node
    rw [search] at h
    split at h
    . next hlt =>
      apply ihl (p := ⟨.left, c, a, r⟩ :: p) hs h
      . simpa [before, Dir.pick] using hb
      . intro x hx
        simp only [after, Dir.pick, List.cons_append, List.mem_cons, List.mem_append] at hx
        rcases hx with rfl | hx | hx
        . exact hlt
        . exact lt_trans hlt (hord.2 x hx)
        . exact ha x hx
    . split at h
      . next hgt =>
        apply ihr (p := ⟨.right, c, a, l⟩ :: p) hs h
        . intro x hx
          simp only [before, Dir.pick, List.mem_append, List.mem_singleton] at hx
          rcases hx with hx | hx | rfl
          . exact hb x hx
          . exact lt_trans (hord.1 x hx) hgt
          . exact hgt
        . simpa [after, Dir.pick] using ha
      . cases h

theorem search_node {c : Color} {l r : RbTree α} {a : α} (h : search key k t p = (node c l a r, q))
    : key a = k := by
  induction t generalizing p with
  | leaf => cases h
  | node c l a r ihl ihr =>
    rw [search] at h
    split at h
    . exact ihl h
    . split at h
      . exact ihr h
      . next hlt hgt =>
        cases h
        exact le_antisymm (not_lt.mp hlt) (not_lt.mp hgt)

/-- A search finds out whether there is a label with the key. -/
theorem search_root (hs : Sorted key t)
    : (∃ q, search key k t [] = (leaf, q)
          ∧ (∀ x ∈ before q, key x < k) ∧ (∀ x ∈ after q, k < key x) ∧ plug leaf q = t)
        ∨ ∃ c l a r q, search key k t [] = (node c l a r, q) ∧ key a = k ∧ plug (node c l a r) q = t := by
  rcases h : search key k t [] with ⟨u, q⟩
  cases u with
  | leaf =>
    rcases search_leaf hs h (by simp [before]) (by simp [after]) with ⟨hb, ha⟩
    exact .inl ⟨q, rfl, hb, ha, plug_search h⟩
  | node c l a r => exact .inr ⟨c, l, a, r, q, rfl, search_node h, plug_search h⟩

/-- A new label takes the place of the leaf where the search for its key ends. -/
theorem Sorted.plug_node {c : Color} {a : α} (hs : Sorted key (plug leaf p))
    (hb : ∀ x ∈ before p, key x < key a) (ha : ∀ x ∈ after p, key a < key x) : Sorted key (plug (node c leaf a leaf) p) := by
  simp only [Sorted, toList_plug, toList, List.map_append, List.map_cons, List.map_nil, List.append_nil,
    List.nil_append, List.pairwise_append, List.pairwise_cons, List.mem_append, List.mem_map,
    List.mem_singleton] at hs ⊢
  rcases hs with ⟨hbefore, hafter, hacross⟩
  refine ⟨⟨hbefore, by simp, ?_⟩, hafter, ?_⟩
  . rintro _ ⟨x, hx, rfl⟩ _ rfl
    exact hb x hx
  . rintro _ (⟨x, hx, rfl⟩ | rfl) _ ⟨y, hy, rfl⟩
    . exact hacross _ ⟨x, hx, rfl⟩ _ ⟨y, hy, rfl⟩
    . exact ha y hy

end Search

section Balance

variable {d : Dir} {c c' : Color} {near far t : RbTree α} {a : α} {n : Nat} {p : List (Frame α)}

theorem RedBlack.branch {cn cf : Color} (hn : RedBlack near cn n) (hf : RedBlack far cf n)
    (hred : c = .red → cn = .black ∧ cf = .black)
    : RedBlack (RbTree.branch d c near a far) c (n + c.weight) := by
  cases d with
  | left => exact .node hn hf hred
  | right => exact .node hf hn (fun h => (hred h).symm)

theorem RedBlack.branch_inv (h : RedBlack (RbTree.branch d c near a far) c' n)
    : ∃ cn cf m, RedBlack near cn m ∧ RedBlack far cf m ∧ (c = .red → cn = .black ∧ cf = .black)
        ∧ c' = c ∧ n = m + c.weight := by
  cases d with
  | left =>
    cases h with
    | node hl hr hred => exact ⟨_, _, _, hl, hr, hred, rfl, rfl⟩
  | right =>
    cases h with
    | node hl hr hred => exact ⟨_, _, _, hr, hl, fun h => (hred h).symm, rfl, rfl⟩

theorem RedBlack.isRed_iff (h : RedBlack t c n) : t.isRed = true ↔ c = .red := by
  cases h with
  | leaf => simp [isRed]
  | @node c => cases c <;> simp [isRed]

theorem RedBlack.black_of_not_red (h : RedBlack t c n) (hred : t.isRed = false) : RedBlack t .black n := by
  cases c with
  | red =>
    rw [h.isRed_iff.mpr rfl] at hred
    contradiction
  | black => exact h

theorem RedBlack.exists_red (h : RedBlack t c n) (hred : t.isRed = true)
    : ∃ l b r, t = RbTree.node .red l b r ∧ RedBlack l .black n ∧ RedBlack r .black n := by
  have hc := h.isRed_iff.mp hred
  cases h with
  | leaf => contradiction
  | @node _ cl cr l r b n hl hr hblack =>
    subst hc
    rw [(hblack rfl).1] at hl
    rw [(hblack rfl).2] at hr
    exact ⟨l, b, r, rfl, hl, hr⟩

/-- Where there is a black height, there is a node. -/
theorem RedBlack.exists_branch (h : RedBlack t c n) (hn : n ≠ 0) (d : Dir)
    : ∃ near b far, t = RbTree.branch d c near b far := by
  cases h with
  | leaf => contradiction
  | @node _ _ _ l r b =>
    rcases RbTree.exists_branch d c l r b with ⟨near, far, heq⟩
    exact ⟨near, b, far, heq⟩

theorem RedBlack.blacken (h : RedBlack t c n) : ∃ m, RedBlack t.blacken .black m := by
  cases h with
  | leaf => exact ⟨0, .leaf⟩
  | node hl hr => exact ⟨_, .node hl hr (by simp)⟩

theorem RedBlack.blacken_of_red (h : RedBlack t c n) (hred : t.isRed = true)
    : RedBlack t.blacken .black (n + 1) := by
  cases h with
  | leaf => contradiction
  | @node c _ _ _ _ _ _ hl hr =>
    cases c with
    | black => contradiction
    | red => exact .node hl hr (by simp)

/-- A subtree that fits makes a red-black tree. -/
theorem Fits.plug (h : Fits p c n) (ht : RedBlack t c n) : ∃ m, RedBlack (plug t p) .black m := by
  induction h generalizing t with
  | root => exact ⟨_, ht⟩
  | frame hs _ hred ih => exact ih (.branch ht hs (fun h => (hred h).symm))

/-- Every subtree of a red-black tree fits. -/
theorem RedBlack.exists_fits (h : RedBlack (RbTree.plug t p) .black n)
    : ∃ c m, RedBlack t c m ∧ Fits p c m := by
  induction p generalizing t with
  | nil => exact ⟨_, _, h, .root⟩
  | cons f p ih =>
    rcases ih h with ⟨_, _, ht, hp⟩
    rcases ht.branch_inv with ⟨cn, cf, m, hn, hf, hred, rfl, rfl⟩
    exact ⟨cn, m, hn, .frame hf hp (fun h => (hred h).symm)⟩

theorem Fits.relabel {q : List (Frame α)} {s : RbTree α} (b : α) (h : Fits (q ++ ⟨d, c, a, s⟩ :: p) c' n)
    : Fits (q ++ ⟨d, c, b, s⟩ :: p) c' n := by
  induction q generalizing c' n with
  | nil =>
    cases h with
    | frame hs hp hred => exact .frame hs hp hred
  | cons f q ih =>
    cases h with
    | frame hs hp hred => exact .frame hs (ih hp) hred

/-- Where a red root fits, a black one does, too. -/
theorem Fits.black (h : Fits p c n) : Fits p .black n := by
  cases h with
  | root => exact .root
  | frame hs hp hred => exact .frame hs hp (fun h => ⟨(hred h).1, rfl⟩)

theorem Fits.frame_inv {ct : Color} {s : RbTree α} (h : Fits (⟨d, c, a, s⟩ :: p) ct n)
    : ∃ cs, RedBlack s cs n ∧ Fits p c (n + c.weight) ∧ (c = .red → cs = .black ∧ ct = .black) := by
  cases h with
  | frame hs hp hred => exact ⟨_, hs, hp, hred⟩

/-- Above a red node there is a black one. -/
theorem Fits.exists_frame (h : Fits p .red n)
    : ∃ d b s cs q, p = ⟨d, .black, b, s⟩ :: q ∧ RedBlack s cs n ∧ Fits q .black (n + 1) := by
  cases h with
  | @frame d c cs _ b s q _ hs hp hred =>
    cases c with
    | red => exact absurd (hred rfl).2 (by decide)
    | black => exact ⟨d, b, s, cs, q, rfl, hs, hp⟩

theorem Fits.red_inv {s : RbTree α} (h : Fits (⟨d, .red, a, s⟩ :: p) c n)
    : RedBlack s .black n ∧ Fits p .red n ∧ c = .black := by
  cases h with
  | frame hs hp hred =>
    rw [(hred rfl).1] at hs
    exact ⟨hs, hp, (hred rfl).2⟩

theorem Fits.black_inv {s : RbTree α} (h : Fits (⟨d, .black, a, s⟩ :: p) c n)
    : ∃ cs, RedBlack s cs n ∧ Fits p .black (n + 1) := by
  cases h with
  | frame hs hp => exact ⟨_, hs, hp⟩

/-- Under a black node there may be any root. -/
theorem Fits.of_black {f : Frame α} (h : Fits (f :: p) c n) (hf : f.color = .black) : Fits (f :: p) c' n := by
  cases h with
  | frame hs hp => exact .frame hs hp (fun hred => absurd (hred.symm.trans hf) (by decide))

theorem RedBlack.red_branch (hn : RedBlack near .black n) (hf : RedBlack far .black n)
    : RedBlack (RbTree.branch d .red near a far) .red n :=
  hn.branch (c := .red) hf (fun _ => ⟨rfl, rfl⟩)

theorem RedBlack.black_branch {cn cf : Color} (hn : RedBlack near cn n) (hf : RedBlack far cf n)
    : RedBlack (RbTree.branch d .black near a far) .black (n + 1) :=
  hn.branch (c := .black) hf (by simp)

/-- The children of a red node are black. -/
theorem RedBlack.red_branch_inv (h : RedBlack (RbTree.branch d .red near a far) c n)
    : RedBlack near .black n ∧ RedBlack far .black n := by
  rcases h.branch_inv with ⟨cn, cf, m, hn, hf, hred, _, rfl⟩
  rw [(hred rfl).1] at hn
  rw [(hred rfl).2] at hf
  exact ⟨hn, hf⟩

theorem RedBlack.black_branch_inv (h : RedBlack (RbTree.branch d .black near a far) c (n + 1))
    : ∃ cn cf, RedBlack near cn n ∧ RedBlack far cf n := by
  rcases h.branch_inv with ⟨cn, cf, m, hn, hf, _, _, hm⟩
  obtain rfl : n = m := Nat.succ.inj hm
  exact ⟨cn, cf, hn, hf⟩

end Balance

end RbTree

end Lib
