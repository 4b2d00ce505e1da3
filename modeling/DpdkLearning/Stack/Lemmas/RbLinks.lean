import DpdkLearning.Stack.Impl.RbTree
import Mathlib.Logic.Function.Basic

/-!
This module contains how a red-black tree lies in memory: a subtree and the path to it, and what the writes
of `nty_tree.h` make of them.
-/

open Lib RbTree

namespace NgStack

namespace RbEntry

/--
The entry with the child `near` on the side `d` and `far` on the other one.
-/
def of (d : Dir) (near far parent : Option Addr) (color : Color) : RbEntry where
  rbeLeft := d.pick near far
  rbeRight := d.pick far near
  rbeParent := parent
  rbeColor := color

variable {d : Dir} {near far parent x : Option Addr} {color : Color}

@[simp]
theorem child_of : (of d near far parent color).child d = near := by
  cases d <;> rfl

@[simp]
theorem child_flip_of : (of d near far parent color).child d.flip = far := by
  cases d <;> rfl

@[simp]
theorem rbeParent_of : (of d near far parent color).rbeParent = parent := by
  rfl

@[simp]
theorem rbeColor_of : (of d near far parent color).rbeColor = color := by
  rfl

@[simp]
theorem setChild_of : (of d near far parent color).setChild d x = of d x far parent color := by
  cases d <;> rfl

@[simp]
theorem setChild_flip_of : (of d near far parent color).setChild d.flip x = of d near x parent color := by
  cases d <;> rfl

@[simp]
theorem of_with_parent (q : Option Addr)
    : { of d near far parent color with rbeParent := q } = of d near far q color := by
  rfl

@[simp]
theorem of_with_color (c : Color)
    : { of d near far parent color with rbeColor := c } = of d near far parent c := by
  rfl

end RbEntry

/--
The subtree lies in memory below the parent.
-/
def Links (rbn : Addr → RbEntry) : Option Addr → RbTree Addr → Prop
  | _, .leaf => True
  | parent, .node c l a r =>
    rbn a = ⟨l.top, r.top, parent, c⟩ ∧ Links rbn (some a) l ∧ Links rbn (some a) r

/--
The path lies in memory, with the pointer `x` at its end.
-/
def Context (h : RbHead) : Option Addr → List (Frame Addr) → Prop
  | x, [] => h.rbhRoot = x
  | x, f :: p =>
    h.rbn f.label = .of f.dir x f.sibling.top (pathTop p) f.color
      ∧ Links h.rbn (some f.label) f.sibling ∧ Context h (some f.label) p

/--
The tree with the subtree at the end of the path lies in memory.
-/
structure TreeAt (h : RbHead) (t : RbTree Addr) (p : List (Frame Addr)) : Prop where
  links : Links h.rbn (pathTop p) t
  context : Context h t.top p
  nodup : (plug t p).toList.Nodup

variable {h h' : RbHead} {rbn rbn' : Addr → RbEntry} {t u near far : RbTree Addr} {p : List (Frame Addr)}
  {d : Dir} {c : Color} {a b : Addr} {parent x y : Option Addr} {f : Frame Addr}

section Frames

theorem links_branch
    : Links rbn parent (branch d c near a far)
        ↔ rbn a = .of d near.top far.top parent c ∧ Links rbn (some a) near ∧ Links rbn (some a) far := by
  cases d with
  | left => rfl
  | right => exact and_congr_right (fun _ => and_comm)

theorem Links.congr (h : Links rbn parent t) (heq : ∀ a ∈ t.toList, rbn' a = rbn a) : Links rbn' parent t := by
  induction t generalizing parent with
  | leaf => trivial
  | node c l a r ihl ihr =>
    simp only [toList, List.forall_mem_append, List.forall_mem_cons] at heq
    exact ⟨heq.2.1.trans h.1, ihl h.2.1 heq.1, ihr h.2.2 heq.2.2⟩

theorem Context.congr (h1 : Context h x p) (hroot : h'.rbhRoot = h.rbhRoot)
    (heq : ∀ a ∈ around p, h'.rbn a = h.rbn a) : Context h' x p := by
  induction p generalizing x with
  | nil => exact hroot.trans h1
  | cons f p ih =>
    simp only [around, List.forall_mem_append, List.forall_mem_cons] at heq
    exact ⟨heq.1.trans h1.1, h1.2.1.congr heq.2.1, ih h1.2.2 heq.2.2⟩

theorem treeAt_fill : TreeAt h (f.fill t) p ↔ TreeAt h t (f :: p) := by
  have htop : (f.fill t).top = some f.label := top_branch ..
  constructor
  . intro ht
    rcases links_branch.mp ht.links with ⟨hlabel, hnear, hsibling⟩
    have hcontext := ht.context
    rw [htop] at hcontext
    exact ⟨hnear, ⟨hlabel, hsibling, hcontext⟩, ht.nodup⟩
  . intro ht
    rcases ht.context with ⟨hlabel, hsibling, hcontext⟩
    refine ⟨links_branch.mpr ⟨hlabel, ht.links, hsibling⟩, ?_, ht.nodup⟩
    rw [htop]
    exact hcontext

theorem treeAt_plug : TreeAt h (plug t p) [] ↔ TreeAt h t p := by
  induction p generalizing t with
  | nil => rfl
  | cons f p ih => exact ih.trans treeAt_fill

end Frames

section Writes

namespace RbHead

@[simp]
theorem rbn_modify_self (f : RbEntry → RbEntry) : (h.modify a f).rbn a = f (h.rbn a) := by
  simp [modify]

theorem rbn_modify_of_ne (f : RbEntry → RbEntry) (hne : b ≠ a) : (h.modify a f).rbn b = h.rbn b := by
  simp [modify, hne]

theorem rbn_setColor_of_ne (hne : b ≠ a) : (h.setColor a c).rbn b = h.rbn b :=
  rbn_modify_of_ne _ hne

theorem rbn_setParent_of_ne (hne : b ≠ a) : (h.setParent a parent).rbn b = h.rbn b :=
  rbn_modify_of_ne _ hne

theorem rbn_setChild_of_ne (hne : b ≠ a) : (h.setChild a d x).rbn b = h.rbn b :=
  rbn_modify_of_ne _ hne

theorem rbn_adopt_of_ne (hne : x ≠ some b) : (h.adopt x parent).rbn b = h.rbn b := by
  cases x with
  | none => rfl
  | some a => exact rbn_setParent_of_ne (fun heq => hne (congrArg some heq.symm))

@[simp]
theorem rbhRoot_adopt : (h.adopt x parent).rbhRoot = h.rbhRoot := by
  cases x <;> rfl

end RbHead

theorem Links.adopt (ht : Links h.rbn x t) (hnodup : t.toList.Nodup)
    : Links (h.adopt t.top parent).rbn parent t := by
  cases t with
  | leaf => trivial
  | node c l a r =>
    rw [toList, List.nodup_append', List.nodup_cons] at hnodup
    have hleft : a ∉ l.toList := fun hmem => hnodup.2.2 hmem List.mem_cons_self
    refine ⟨?_, ht.2.1.congr ?_, ht.2.2.congr ?_⟩
    . change (h.setParent a parent).rbn a = _
      rw [RbHead.setParent, RbHead.rbn_modify_self, ht.1]
    . intro b hb
      apply RbHead.rbn_adopt_of_ne
      rintro ⟨⟩
      exact hleft hb
    . intro b hb
      apply RbHead.rbn_adopt_of_ne
      rintro ⟨⟩
      exact hnodup.2.1.1 hb

theorem Context.setChild (hc : Context h x (f :: p)) (hnodup : (around (f :: p)).Nodup)
    : Context (h.setChild f.label f.dir y) y (f :: p) := by
  rw [around, List.nodup_cons] at hnodup
  have hoff : ∀ l : List Addr, f.label ∉ l → ∀ b ∈ l, (h.setChild f.label f.dir y).rbn b = h.rbn b := by
    intro l hl b hb
    exact RbHead.rbn_setChild_of_ne (ne_of_mem_of_not_mem hb hl)
  refine ⟨?_, hc.2.1.congr (hoff _ ?_), hc.2.2.congr rfl (hoff _ ?_)⟩
  . rw [RbHead.setChild, RbHead.rbn_modify_self, hc.1, RbEntry.setChild_of]
  . exact fun hmem => hnodup.1 (List.mem_append_left _ hmem)
  . exact fun hmem => hnodup.1 (List.mem_append_right _ hmem)

/-- What hangs at the end of the path is replaced, and no entry off the path is written. -/
theorem Context.replace (hc : Context h (some a) p) (hnodup : (around p).Nodup) (ha : a ∉ around p)
    : Context (h.replace (pathTop p) a x) x p
        ∧ ∀ b, b ∉ around p → (h.replace (pathTop p) a x).rbn b = h.rbn b := by
  cases p with
  | nil => exact ⟨rfl, fun _ _ => rfl⟩
  | cons f p =>
    have hreplace : h.replace (pathTop (f :: p)) a x = h.setChild f.label f.dir x := by
      rw [around, List.mem_cons, List.mem_append, not_or, not_or] at ha
      dsimp only [pathTop, RbHead.replace]
      rw [hc.1]
      cases hdir : f.dir with
      | left => exact if_pos rfl
      | right =>
        rw [if_neg]
        intro heq
        exact ha.2.1 (mem_of_top heq)
    rw [hreplace]
    refine ⟨hc.setChild hnodup, ?_⟩
    intro b hb
    apply RbHead.rbn_setChild_of_ne
    rintro rfl
    exact hb List.mem_cons_self

end Writes

theorem treeAt_branch
    : TreeAt h (branch d c near a far) p
        ↔ h.rbn a = .of d near.top far.top (pathTop p) c ∧ Links h.rbn (some a) near ∧ Links h.rbn (some a) far
          ∧ Context h (some a) p ∧ (plug (branch d c near a far) p).toList.Nodup := by
  constructor
  . intro ht
    rcases links_branch.mp ht.links with ⟨hentry, hnear, hfar⟩
    exact ⟨hentry, hnear, hfar, ht.context, ht.nodup⟩
  . rintro ⟨hentry, hnear, hfar, hcontext, hnodup⟩
    exact ⟨links_branch.mpr ⟨hentry, hnear, hfar⟩, hcontext, hnodup⟩

theorem nodup_plug_branch
    : (plug (branch d c near a far) p).toList.Nodup
        ↔ a ∉ near.toList ∧ a ∉ far.toList ∧ near.toList.Nodup ∧ far.toList.Nodup
          ∧ near.toList.Disjoint far.toList ∧ (around p).Nodup ∧ a ∉ around p
          ∧ near.toList.Disjoint (around p) ∧ far.toList.Disjoint (around p) := by
  have hdisjoint : (branch d c near a far).toList.Disjoint (around p)
      ↔ a ∉ around p ∧ near.toList.Disjoint (around p) ∧ far.toList.Disjoint (around p) := by
    rw [(branch_perm ..).disjoint_left, List.disjoint_cons_left, List.disjoint_append_left]
  rw [nodup_plug, nodup_branch, hdisjoint]
  tauto

theorem TreeAt.setColor (ht : TreeAt h (branch d c near a far) p) (c' : Color)
    : TreeAt (h.setColor a c') (branch d c' near a far) p := by
  rcases treeAt_branch.mp ht with ⟨hentry, hnear, hfar, hcontext, hnodup⟩
  rcases nodup_plug_branch.mp hnodup with ⟨hanear, hafar, _, _, _, _, hapath, _, _⟩
  have hoff : ∀ l : List Addr, a ∉ l → ∀ b ∈ l, (h.setColor a c').rbn b = h.rbn b := by
    intro l hl b hb
    exact RbHead.rbn_setColor_of_ne (ne_of_mem_of_not_mem hb hl)
  apply treeAt_branch.mpr
  refine ⟨?_, hnear.congr (hoff _ hanear), hfar.congr (hoff _ hafar), hcontext.congr rfl (hoff _ hapath), ?_⟩
  . rw [RbHead.setColor, RbHead.rbn_modify_self, hentry, RbEntry.of_with_color]
  . exact nodup_plug_branch.mpr (nodup_plug_branch.mp hnodup)

theorem TreeAt.blacken (ht : TreeAt h t p) : TreeAt (h.blacken t.top) t.blacken p := by
  cases t with
  | leaf => exact ht
  | node c l a r => exact TreeAt.setColor (d := .left) ht .black

theorem Links.isBlack (ht : Links h.rbn parent t) : h.isBlack t.top = !t.isRed := by
  cases t with
  | leaf => rfl
  | node c l a r =>
    rw [RbHead.isBlack, top, Option.all_some, ht.1]
    cases c <;> rfl

theorem adopt_setChild {m : RbTree Addr} (hentry : h.rbn a = .of d near.top y parent c) (hm : Links h.rbn x m)
    (hnodup : m.toList.Nodup) (ha : a ∉ m.toList)
    : ((h.setChild a d.flip m.top).adopt m.top (some a)).rbn a = .of d near.top m.top parent c
        ∧ Links ((h.setChild a d.flip m.top).adopt m.top (some a)).rbn (some a) m
        ∧ ∀ b, b ≠ a → b ∉ m.toList → ((h.setChild a d.flip m.top).adopt m.top (some a)).rbn b = h.rbn b := by
  refine ⟨?_, ?_, ?_⟩
  . rw [RbHead.rbn_adopt_of_ne (fun htop => ha (mem_of_top htop)), RbHead.setChild,
      RbHead.rbn_modify_self, hentry, RbEntry.setChild_flip_of]
  . apply Links.adopt _ hnodup
    . exact x
    . apply hm.congr
      intro b hb
      apply RbHead.rbn_setChild_of_ne
      rintro rfl
      exact ha hb
  . intro b hba hb
    rw [RbHead.rbn_adopt_of_ne (fun htop => hb (mem_of_top htop)), RbHead.rbn_setChild_of_ne hba]

/-- A rotation turns the child on the other side into the parent. -/
theorem TreeAt.rotate {m : RbTree Addr} {c' : Color}
    (ht : TreeAt h (branch d c near a (branch d c' m b far)) p)
    : ∃ h', h.rotate d a = some h' ∧ TreeAt h' (branch d c' (branch d c near a m) b far) p := by
  rcases treeAt_branch.mp ht with ⟨hentrya, hnear, hchild, hcontext, hnodup⟩
  rcases links_branch.mp hchild with ⟨hentryb, hm, hfar⟩
  have hapart := nodup_plug_branch.mp hnodup
  rw [nodup_branch, (branch_perm ..).disjoint_right, (branch_perm ..).disjoint_left] at hapart
  simp only [mem_branch, not_or, List.disjoint_cons_left, List.disjoint_cons_right, List.disjoint_append_left,
    List.disjoint_append_right] at hapart
  rcases hapart with ⟨hanear, ⟨hab, ham, hafar⟩, _, ⟨hbm, hbfar, hmnodup, _, hmfar⟩, ⟨hbnear, hnearm, _⟩,
    hpath, hapath, hnearpath, hbpath, hmpath, hfarpath⟩
  -- The inner child `m` goes over to `a`; then `b` takes the place of `a` below the path.
  rcases adopt_setChild hentrya hm hmnodup ham with ⟨hentrya', hm', hoff⟩
  unfold RbHead.rotate
  rw [hentrya, RbEntry.child_flip_of, top_branch]
  dsimp only
  rw [hentryb, RbEntry.child_of]
  generalize hh2 : (h.setChild a d.flip m.top).adopt m.top (some a) = h2 at hentrya' hm' hoff
  have hentryb' : h2.rbn b = .of d m.top far.top (some a) c' := by
    rw [hoff b (Ne.symm hab) hbm, hentryb]
  have hcontext' : Context (h2.setParent b (pathTop p)) (some a) p := by
    apply hcontext.congr
    . rw [← hh2]
      exact RbHead.rbhRoot_adopt
    . intro x hx
      rw [RbHead.rbn_setParent_of_ne (ne_of_mem_of_not_mem hx hbpath),
        hoff x (ne_of_mem_of_not_mem hx hapath) (fun hxm => hmpath hxm hx)]
  rcases hcontext'.replace (x := some b) hpath hapath with ⟨hcontext4, hoff4⟩
  rw [hentrya', RbEntry.rbeParent_of]
  generalize (h2.setParent b (pathTop p)).replace (pathTop p) a (some b) = h4 at hcontext4 hoff4
  have hoff6 : ∀ x, x ≠ a → x ≠ b → ((h4.setChild b d (some a)).setParent a (some b)).rbn x = h4.rbn x := by
    intro x hxa hxb
    rw [RbHead.rbn_setParent_of_ne hxa, RbHead.rbn_setChild_of_ne hxb]
  have hkept : ∀ x, x ≠ a → x ≠ b → x ∉ around p
      → ((h4.setChild b d (some a)).setParent a (some b)).rbn x = h2.rbn x := by
    intro x hxa hxb hx
    rw [hoff6 x hxa hxb, hoff4 x hx, RbHead.rbn_setParent_of_ne hxb]
  refine ⟨_, rfl, treeAt_branch.mpr ⟨?_, links_branch.mpr ⟨?_, ?_, ?_⟩, ?_, ?_, ?_⟩⟩
  . rw [RbHead.rbn_setParent_of_ne (Ne.symm hab), RbHead.setChild, RbHead.rbn_modify_self, hoff4 b hbpath,
      RbHead.setParent, RbHead.rbn_modify_self, hentryb', RbEntry.of_with_parent, RbEntry.setChild_of]
    rfl
  . rw [RbHead.setParent, RbHead.rbn_modify_self, RbHead.rbn_setChild_of_ne hab, hoff4 a hapath,
      RbHead.rbn_setParent_of_ne hab, hentrya', RbEntry.of_with_parent]
  . apply hnear.congr
    intro x hx
    have hxa := ne_of_mem_of_not_mem hx hanear
    rw [hkept x hxa (ne_of_mem_of_not_mem hx hbnear) (hnearpath hx), hoff x hxa (hnearm hx)]
  . apply hm'.congr
    intro x hx
    exact hkept x (ne_of_mem_of_not_mem hx ham) (ne_of_mem_of_not_mem hx hbm) (hmpath hx)
  . apply hfar.congr
    intro x hx
    have hxa := ne_of_mem_of_not_mem hx hafar
    rw [hkept x hxa (ne_of_mem_of_not_mem hx hbfar) (hfarpath hx), hoff x hxa (fun hxm => hmfar hxm hx)]
  . refine hcontext4.congr ?_ ?_
    . rfl
    . intro x hx
      exact hoff6 x (ne_of_mem_of_not_mem hx hapath) (ne_of_mem_of_not_mem hx hbpath)
  . rw [toList_plug_congr _ p]
    . exact hnodup
    . cases d <;> simp [Dir.pick]

end NgStack
