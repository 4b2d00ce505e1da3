import DpdkLearning.Lib.RbRepair
import DpdkLearning.Stack.Lemmas.RbLinks

/-!
This module contains that the loop of `RB_INSERT_COLOR` repairs the tree.
-/

open Lib RbTree

namespace NgStack

variable {h : RbHead} {t s near far : RbTree Addr} {p : List (Frame Addr)} {d : Dir} {c : Color}
  {a b x : Addr} {f : Frame Addr} {n rounds : Nat}

theorem treeAt_near : TreeAt h (branch d c t a s) p ↔ TreeAt h t (⟨d, c, a, s⟩ :: p) :=
  treeAt_fill (f := ⟨d, c, a, s⟩)

theorem treeAt_far : TreeAt h (branch d c t a s) p ↔ TreeAt h s (⟨d.flip, c, a, t⟩ :: p) := by
  rw [← branch_flip]
  exact treeAt_fill (f := ⟨d.flip, c, a, t⟩)

theorem TreeAt.setBlackred (ht : TreeAt h t (⟨d, c, a, s⟩ :: p)) (htop : t.top = some x)
    : TreeAt (h.setBlackred x a) t.blacken (⟨d, .red, a, s⟩ :: p) := by
  have hblack := ht.blacken
  rw [htop] at hblack
  exact treeAt_near.mp ((treeAt_near.mpr hblack).setColor .red)

theorem TreeAt.parent_eq (ht : TreeAt h t p) (htop : t.top = some x) : (h.rbn x).rbeParent = pathTop p := by
  cases t with
  | leaf => contradiction
  | node c l a r =>
    cases htop
    rw [ht.links.1]

theorem TreeAt.isBlack_parent (ht : TreeAt h t (f :: p)) : h.isBlack (some f.label) = (f.color == .black) := by
  rw [RbHead.isBlack, Option.all_some, ht.context.1, RbEntry.rbeColor_of]

theorem TreeAt.side (ht : TreeAt h t (f :: p)) (hne : f.sibling.top ≠ none ∨ t.top ≠ none)
    : (if (h.rbn f.label).rbeLeft = t.top then Dir.left else .right) = f.dir := by
  have hdisjoint := (nodup_plug_branch.mp ht.nodup).2.2.2.2.1
  rw [ht.context.1]
  cases f.dir with
  | left => exact if_pos rfl
  | right =>
    apply if_neg
    intro heq
    have heq : f.sibling.top = t.top := heq
    rw [heq, or_self] at hne
    rcases Option.ne_none_iff_exists'.mp hne with ⟨x, hx⟩
    exact hdisjoint (mem_of_top hx) (mem_of_top (heq.trans hx))

theorem insertColor_exit (ht : TreeAt h t []) (htop : t.top ≠ none)
    (hparent : h.isBlack (h.rbn x).rbeParent = true)
    : ∃ h', h.insertColor x (rounds + 1) = some h' ∧ TreeAt h' t.blacken [] := by
  rcases Option.ne_none_iff_exists'.mp htop with ⟨root, hroot⟩
  have hblack := ht.blacken
  rw [hroot] at hblack
  unfold RbHead.insertColor
  dsimp only
  rw [if_pos hparent, ht.context, hroot]
  exact ⟨_, rfl, hblack⟩

theorem insertColor_below_black (ht : TreeAt h t (f :: p)) (hf : f.color = .black) (htop : t.top = some x)
    : ∃ h', h.insertColor x (rounds + 1) = some h' ∧ TreeAt h' (plug t (f :: p)).blacken [] := by
  apply insertColor_exit (treeAt_plug.mpr ht)
  . apply top_plug_ne_none
    rw [htop]
    exact Option.some_ne_none x
  . rw [ht.parent_eq htop]
    exact ht.isBlack_parent.trans (by rw [hf]; rfl)

section Rounds

variable {e : Dir} {u l r : RbTree Addr} {z : Addr}

theorem TreeAt.parents (ht : TreeAt h t (⟨d, .red, a, s⟩ :: ⟨e, c, b, u⟩ :: p))
    : h.rbn a = .of d t.top s.top (some b) .red ∧ h.rbn b = .of e (some a) u.top (pathTop p) c :=
  ⟨ht.context.1, ht.context.2.2.1⟩

theorem insertColorSide_recolor
    (ht : TreeAt h t (⟨d, .red, a, s⟩ :: ⟨e, .black, b, .node .red l z r⟩ :: p))
    : ∃ h', h.insertColorSide e x a b = some (h', b)
        ∧ TreeAt h' (branch e .red (branch d .black t a s) b (.node .black l z r)) p := by
  have hfar := treeAt_far.mp (treeAt_near.mpr (treeAt_near.mpr ht))
  have hnear := treeAt_near.mp (treeAt_far.mpr hfar.blacken)
  have hred := hnear.setBlackred (top_branch ..)
  have huncle : h.isBlack (some z) = false := by
    rw [show some z = (node .red l z r).top from rfl, hfar.links.isBlack]
    rfl
  unfold RbHead.insertColorSide
  rw [ht.parents.2, RbEntry.child_flip_of]
  dsimp only [top]
  rw [huncle]
  refine ⟨_, rfl, ?_⟩
  rw [blacken_branch] at hred
  exact treeAt_near.mpr hred

theorem insertColorSide_outer (ht : TreeAt h t (⟨d, .red, a, s⟩ :: ⟨d, .black, b, u⟩ :: p))
    (htop : t.top = some x) (hu : u.isRed = false)
    : ∃ h', h.insertColorSide d x a b = some (h', x)
        ∧ TreeAt h' (branch d .black t a (branch d .red s b u)) p := by
  have hred := treeAt_near.mpr ((treeAt_near.mpr ht).setBlackred (top_branch ..))
  rw [blacken_branch, ← branch_flip d .red, ← branch_flip d .black] at hred
  rcases hred.rotate with ⟨h', hrotate, ht'⟩
  rw [branch_flip, branch_flip] at ht'
  refine ⟨h', ?_, ht'⟩
  have hside : s.top ≠ some x := by
    intro hs
    have := (nodup_plug_branch.mp (treeAt_near.mpr ht).nodup).2.2.2.2.1
    exact this (mem_of_top htop) (mem_of_top hs)
  unfold RbHead.insertColorSide
  rw [ht.parents.1, ht.parents.2, RbEntry.child_flip_of, RbEntry.child_flip_of]
  have huncle := (treeAt_far.mp (treeAt_near.mpr (treeAt_near.mpr ht))).links.isBlack
  dsimp only
  rw [huncle, hu, if_neg (by simp), if_neg hside, hrotate]
  rfl

theorem insertColorSide_inner
    (ht : TreeAt h (branch d .red near x far) (⟨d.flip, .red, a, s⟩ :: ⟨d, .black, b, u⟩ :: p))
    (hu : u.isRed = false)
    : ∃ h', h.insertColorSide d x a b = some (h', a)
        ∧ TreeAt h' (branch d .black (branch d .red s a near) x (branch d .red far b u)) p := by
  have hparent := treeAt_near.mpr ht
  rw [branch_flip] at hparent
  rcases hparent.rotate with ⟨h1, hrotate1, ht1⟩
  have hred := treeAt_near.mpr (ht1.setBlackred (top_branch ..))
  rw [blacken_branch, ← branch_flip d .red, ← branch_flip d .black] at hred
  rcases hred.rotate with ⟨h', hrotate, ht'⟩
  rw [branch_flip, branch_flip] at ht'
  refine ⟨h', ?_, ht'⟩
  unfold RbHead.insertColorSide
  rw [ht.parents.1, ht.parents.2, RbEntry.child_flip_of, RbEntry.child_of, top_branch]
  have huncle := (treeAt_far.mp (treeAt_near.mpr (treeAt_near.mpr ht))).links.isBlack
  dsimp only
  rw [huncle, hu, if_neg (by simp), if_pos rfl, hrotate1]
  dsimp only
  rw [hrotate]
  rfl

end Rounds

theorem insertColor_round {e : Dir} {u : RbTree Addr}
    (ht : TreeAt h t (⟨d, .red, a, s⟩ :: ⟨e, c, b, u⟩ :: p)) (htop : t.top = some x)
    : h.insertColor x (rounds + 1)
        = (h.insertColorSide e x a b).bind (fun next => next.1.insertColor next.2 rounds) := by
  have hparent : (h.rbn x).rbeParent = some a := ht.parent_eq htop
  have hgparent : (h.rbn a).rbeParent = some b := by
    rw [ht.parents.1, RbEntry.rbeParent_of]
  have hred : h.isBlack (some a) = false := ht.isBlack_parent
  have hgrand := treeAt_near.mpr ht
  have htop' : (branch d .red t a s).top = some a := top_branch ..
  rw [RbHead.insertColor, hparent, if_neg (by simp [hred]), Option.bind_some, hgparent, Option.map_some]
  dsimp only
  rw [← htop', hgrand.side (.inr (Option.some_ne_none a))]
  cases h.insertColorSide e x a b <;> rfl

/--
The loop repairs the tree, and it does so within as many rounds as there are nodes above.
-/
theorem insertColor_fixed (ht : TreeAt h t p) (htop : t.top = some x) (hbal : RedBlack t .red n)
    (hfits : Fits p .black n) (hrounds : p.length < rounds)
    : ∃ h' u, h.insertColor x rounds = some h' ∧ TreeAt h' u [] ∧ InsertFixed t p u := by
  induction rounds generalizing h t p x n with
  | zero => omega
  | succ rounds ih =>
    cases hfits with
    | root =>
      have hexit : h.isBlack (h.rbn x).rbeParent = true := by
        rw [ht.parent_eq htop]
        rfl
      rcases insertColor_exit ht (by simp [htop]) hexit with ⟨h', hrun, ht'⟩
      exact ⟨h', _, hrun, ht', .root t⟩
    | @frame d c cs _ a s p n hs hp hred =>
      cases c with
      | black =>
        rcases insertColor_below_black ht rfl htop with ⟨h', hrun, ht'⟩
        exact ⟨h', _, hrun, ht', .black rfl⟩
      | red =>
        rw [(hred rfl).1] at hs
        rcases hp.exists_frame with ⟨e, b, u, cu, p, rfl, hu, hp'⟩
        have hrounds' : p.length + 1 < rounds := by
          simp only [List.length_cons] at hrounds
          omega
        rw [insertColor_round ht htop]
        cases hucolor : u.isRed with
        | true =>
          rcases hu.exists_red hucolor with ⟨l, z, r, rfl, hl, hr⟩
          rcases insertColorSide_recolor ht with ⟨h1, hside, ht1⟩
          have hbal' := (hbal.black_branch (d := d) (a := a) hs).red_branch (d := e) (a := b)
            (.node (c := .black) (a := z) hl hr (by simp))
          rw [hside]
          rcases ih ht1 (top_branch ..) hbal' hp' (by omega) with ⟨h', u, hrun, ht', hfixed⟩
          exact ⟨h', u, hrun, ht', .recolor hfixed⟩
        | false =>
          -- After the rotations the loop is left in the next round, as the parent is black then.
          rcases Nat.exists_eq_add_one_of_ne_zero (Nat.ne_of_gt (Nat.zero_lt_of_lt hrounds')) with ⟨m, rfl⟩
          by_cases hde : d = e
          . subst hde
            rcases insertColorSide_outer ht htop hucolor with ⟨h1, hside, ht1⟩
            rcases insertColor_below_black (treeAt_near.mp ht1) rfl htop with ⟨h', hrun, ht'⟩
            rw [hside]
            exact ⟨h', _, hrun, ht', .outer hucolor⟩
          . obtain rfl := Dir.eq_flip_of_ne hde
            rcases hbal.exists_red (hbal.isRed_iff.mpr rfl) with ⟨l, z, r, rfl, _, _⟩
            obtain rfl : z = x := Option.some.inj htop
            rcases exists_branch e .red l r z with ⟨near, far, heq⟩
            rw [heq] at ht ⊢
            rcases insertColorSide_inner ht hucolor with ⟨h1, hside, ht1⟩
            rcases insertColor_below_black (treeAt_near.mp ht1) rfl (top_branch ..) with ⟨h', hrun, ht'⟩
            rw [hside]
            exact ⟨h', _, hrun, ht', .inner hucolor⟩

section Descent

variable {κ : Type} [LinearOrder κ] {key : Addr → κ} {k : κ} {comp : Addr → Option Int} {last : Int}
  {u : RbTree Addr} {q : List (Frame Addr)} {elm : Addr}

/--
The comparison with the item at an address is that of the keys.
-/
def Compares (comp : Addr → Option Int) (key : Addr → κ) (k : κ) (a : Addr) : Prop :=
  ∃ v, comp a = some v ∧ (v < 0 ↔ k < key a) ∧ (0 < v ↔ key a < k)

/--
The comparison tells the side of the last node of the path.
-/
def Sided (last : Int) (p : List (Frame Addr)) : Prop :=
  ∀ f ∈ p.head?, (if last < 0 then Dir.left else .right) = f.dir

theorem sided_nil (last : Int) : Sided last [] := by
  simp [Sided]

/--
The descent is the search for the key.
-/
theorem descend_search (hlinks : Links h.rbn (pathTop p) t) (hcomp : ∀ a ∈ t.toList, Compares comp key k a)
    (hlast : Sided last p) (hrounds : t.toList.length < rounds) (hsearch : search key k t p = (u, q))
    : ∃ v, h.descend comp t.top (pathTop p) last rounds = some (u.top, u.top.or (pathTop q), v)
        ∧ (u.top = none → Sided v q) := by
  -- The induction is on the subtree below. The path has what was passed on the way to it.
  induction t generalizing p last rounds with
  | leaf =>
    cases hsearch
    cases rounds with
    | zero => omega
    | succ rounds => exact ⟨last, rfl, fun _ => hlast⟩
  | node c l a r ihl ihr =>
    cases rounds with
    | zero => omega
    | succ rounds =>
      simp only [toList, List.forall_mem_append, List.forall_mem_cons] at hcomp
      simp only [toList, List.length_append, List.length_cons] at hrounds
      rcases hcomp.2.1 with ⟨v, hv, hless, hgreater⟩
      unfold RbHead.descend
      dsimp only [top]
      rw [hv]
      dsimp only
      rw [search] at hsearch
      split at hsearch
      . next hlt =>
        have hneg := hless.mpr hlt
        rw [if_pos hneg, hlinks.1]
        refine ihl (p := ⟨.left, c, a, r⟩ :: p) hlinks.2.1 hcomp.1 ?_ (by omega) hsearch
        intro f hf
        cases hf
        exact if_pos hneg
      . next hnlt =>
        have hneg : ¬v < 0 := fun hv => hnlt (hless.mp hv)
        rw [if_neg hneg]
        split at hsearch
        . next hgt =>
          rw [if_pos (hgreater.mpr hgt), hlinks.1]
          refine ihr (p := ⟨.right, c, a, l⟩ :: p) hlinks.2.2 hcomp.2.2 ?_ (by omega) hsearch
          intro f hf
          cases hf
          exact if_neg hneg
        . next hngt =>
          cases hsearch
          rw [if_neg (fun hv => hngt (hgreater.mp hv))]
          exact ⟨v, rfl, fun htop => absurd htop (Option.some_ne_none a)⟩

theorem find_spec (ht : TreeAt h t []) (hsorted : Sorted key t)
    (hcomp : ∀ a ∈ t.toList, Compares comp key k a) (hrounds : t.toList.length < rounds)
    : ∃ found, h.find comp rounds = some found ∧ (∀ a, found = some a → a ∈ t.toList ∧ key a = k)
        ∧ (found = none → ∀ a ∈ t.toList, key a ≠ k) := by
  have hroot : h.rbhRoot = t.top := ht.context
  rw [RbHead.find, hroot]
  rcases search_root (k := k) hsorted with
    ⟨q, hsearch, hbefore, hafter, hplug⟩ | ⟨c, l, a, r, q, hsearch, hkey, hplug⟩
  . rcases descend_search ht.links hcomp (sided_nil 0) hrounds hsearch with ⟨v, hdescend, _⟩
    refine ⟨none, ?_, by simp, ?_⟩
    . exact congrArg (Option.map Prod.fst) hdescend
    . intro _ a ha
      rw [← hplug, toList_plug] at ha
      simp only [toList, List.append_nil, List.mem_append] at ha
      rcases ha with ha | ha
      . exact ne_of_lt (hbefore a ha)
      . exact ne_of_gt (hafter a ha)
  . rcases descend_search ht.links hcomp (sided_nil 0) hrounds hsearch with ⟨v, hdescend, _⟩
    refine ⟨some a, ?_, ?_, by simp⟩
    . exact congrArg (Option.map Prod.fst) hdescend
    . rintro _ ⟨⟩
      refine ⟨?_, hkey⟩
      rw [← hplug, mem_plug, toList]
      simp

theorem treeAt_attach (ht : TreeAt h .leaf p) (helm : elm ∉ around p) (hsided : Sided last p)
    : TreeAt ((h.set elm (pathTop p)).attach (pathTop p) (if last < 0 then .left else .right) elm)
        (.node .red .leaf elm .leaf) p := by
  have hset : Context (h.set elm (pathTop p)) none p :=
    ht.context.congr rfl (fun b hb => RbHead.rbn_modify_of_ne _ (ne_of_mem_of_not_mem hb helm))
  have hentry : (h.set elm (pathTop p)).rbn elm = ⟨none, none, pathTop p, .red⟩ :=
    RbHead.rbn_modify_self _
  have hpath := (nodup_plug.mp ht.nodup).2.1
  have hnodup : (plug (.node .red .leaf elm .leaf) p).toList.Nodup := by
    apply nodup_plug.mpr
    simp [toList, hpath, helm]
  cases p with
  | nil => exact ⟨⟨hentry, trivial, trivial⟩, rfl, hnodup⟩
  | cons f p =>
    dsimp only [pathTop, RbHead.attach] at hset hentry ⊢
    rw [hsided f rfl]
    refine ⟨⟨?_, trivial, trivial⟩, hset.setChild hpath, hnodup⟩
    rw [RbHead.rbn_setChild_of_ne]
    . exact hentry
    . rintro rfl
      exact helm List.mem_cons_self

/-- What `RB_INSERT` does with an item whose key is new. -/
theorem insert_spec (ht : TreeAt h t []) (hsorted : Sorted key t) (hbal : ∃ n, RedBlack t .black n)
    (hcomp : ∀ a ∈ t.toList, Compares comp key (key elm) a) (hnew : ∀ a ∈ t.toList, key a ≠ key elm)
    (hrounds : t.toList.length < rounds)
    : ∃ h' t', h.insert comp elm rounds = some (h', none) ∧ TreeAt h' t' [] ∧ Sorted key t'
        ∧ (∃ n, RedBlack t' .black n) ∧ t'.toList.Perm (elm :: t.toList) := by
  have hroot : h.rbhRoot = t.top := ht.context
  rcases search_root (k := key elm) hsorted with
    ⟨q, hsearch, hbefore, hafter, hplug⟩ | ⟨c, l, a, r, q, _, hkey, hplug⟩
  . rcases descend_search ht.links hcomp (sided_nil 0) hrounds hsearch with ⟨v, hdescend, hsided⟩
    rw [← hplug] at ht hsorted hbal hnew hrounds ⊢
    have hleaf := treeAt_plug.mp ht
    have helm : elm ∉ around q := fun hmem => hnew elm (mem_plug.mpr (.inr hmem)) rfl
    have hlinked := treeAt_attach hleaf helm (hsided rfl)
    rcases hbal with ⟨n, hn⟩
    rcases hn.exists_fits with ⟨c, m, hm, hfits⟩
    cases hm
    have hred : RedBlack (.node .red .leaf elm .leaf) .red 0 := .node .leaf .leaf (fun _ => ⟨rfl, rfl⟩)
    have hlength : q.length < rounds := by
      have := (plug_perm RbTree.leaf q).length_eq
      simp only [toList, List.nil_append] at this
      have := length_le_around q
      omega
    rcases insertColor_fixed hlinked rfl hred hfits hlength with ⟨h', u, hrun, ht', hfixed⟩
    refine ⟨h', u, ?_, ht', ?_, hfixed.redBlack hred hfits, ?_⟩
    . have hend : h.descend comp t.top none 0 rounds = some (none, pathTop q, v) := hdescend
      rw [RbHead.insert, hroot, hend]
      exact congrArg (Option.map (fun h => (h, none))) hrun
    . rw [Sorted, hfixed.toList]
      exact hsorted.plug_node hbefore hafter
    . rw [hfixed.toList]
      refine (plug_perm _ q).trans ?_
      exact ((plug_perm RbTree.leaf q).cons elm).symm
  . exact absurd hkey (hnew a (by rw [← hplug, mem_plug, toList]; simp))

end Descent

end NgStack
