import DpdkLearning.Stack.Lemmas.RbInsert

/-!
This module contains that the loop of `RB_REMOVE_COLOR` repairs the tree.
-/

open Lib RbTree

namespace NgStack

variable {h : RbHead} {t s near far : RbTree Addr} {p : List (Frame Addr)} {d : Dir} {c : Color}
  {a b x : Addr} {f : Frame Addr} {n rounds : Nat}

section Rounds

theorem TreeAt.sibling {cs : Color} (ht : TreeAt h t (⟨d, c, a, branch d cs near b far⟩ :: p))
    : h.rbn b = .of d near.top far.top (some a) cs :=
  (links_branch.mp (treeAt_far.mp (treeAt_near.mpr ht)).links).1

theorem removeColorLast_spec (ht : TreeAt h t (⟨d, c, a, branch d .black near b far⟩ :: p))
    : ∃ h', h.removeColorLast d a b = some h'
        ∧ TreeAt h' (branch d c (branch d .black t a near) b far.blacken) p := by
  have hcolor : (h.rbn a).rbeColor = c := by
    rw [ht.context.1, RbEntry.rbeColor_of]
  have hb := (treeAt_far.mp (treeAt_near.mpr ht)).setColor c
  have ha := (treeAt_far.mpr hb).setColor .black
  have hentry := (treeAt_near.mp ha).sibling
  have hfar := (treeAt_far.mp (treeAt_far.mp ha)).blacken
  rcases (treeAt_far.mpr (treeAt_far.mpr hfar)).rotate with ⟨h', hrotate, ht'⟩
  refine ⟨h', ?_, ht'⟩
  unfold RbHead.removeColorLast
  rw [hcolor]
  dsimp only
  rw [hentry, RbEntry.child_flip_of]
  exact hrotate

theorem TreeAt.isBlack_children {cs : Color} (ht : TreeAt h t (⟨d, c, a, branch d cs near b far⟩ :: p))
    : (h.isBlack (h.rbn b).rbeLeft && h.isBlack (h.rbn b).rbeRight) = (!near.isRed && !far.isRed) := by
  have hsibling := (treeAt_far.mp (treeAt_near.mpr ht)).links
  rcases links_branch.mp hsibling with ⟨_, hnear, hfar⟩
  rw [ht.sibling, ← hnear.isBlack, ← hfar.isBlack]
  cases d with
  | left => rfl
  | right => exact Bool.and_comm ..

theorem TreeAt.isBlack_far {cs : Color} (ht : TreeAt h t (⟨d, c, a, branch d cs near b far⟩ :: p))
    : h.isBlack ((h.rbn b).child d.flip) = !far.isRed := by
  have hsibling := (treeAt_far.mp (treeAt_near.mpr ht)).links
  rw [ht.sibling, RbEntry.child_flip_of, (links_branch.mp hsibling).2.2.isBlack]

theorem removeColorBlack_recolor (ht : TreeAt h t (⟨d, c, a, branch d .black near b far⟩ :: p))
    (hnear : near.isRed = false) (hfar : far.isRed = false)
    : ∃ h', h.removeColorBlack d a b = some (h', false)
        ∧ TreeAt h' (branch d c t a (branch d .red near b far)) p := by
  have hboth := ht.isBlack_children
  rw [hnear, hfar] at hboth
  refine ⟨h.setColor b .red, if_pos hboth, ?_⟩
  exact treeAt_far.mpr ((treeAt_far.mp (treeAt_near.mpr ht)).setColor .red)

theorem removeColorBlack_outer (ht : TreeAt h t (⟨d, c, a, branch d .black near b far⟩ :: p))
    (hfar : far.isRed = true)
    : ∃ h', h.removeColorBlack d a b = some (h', true)
        ∧ TreeAt h' (branch d c (branch d .black t a near) b far.blacken) p := by
  have hboth := ht.isBlack_children
  have hother := ht.isBlack_far
  rw [hfar] at hboth hother
  rcases removeColorLast_spec ht with ⟨h', hlast, ht'⟩
  refine ⟨h', ?_, ht'⟩
  rw [RbHead.removeColorBlack, hboth, hother, hlast]
  simp

/-- A sibling whose red child is on this side is rotated away first. -/
theorem removeColorBlack_inner {far' : RbTree Addr} {z : Addr}
    (ht : TreeAt h t (⟨d, c, a, branch d .black (branch d .red near z far') b far⟩ :: p))
    (hfar : far.isRed = false)
    : ∃ h', h.removeColorBlack d a b = some (h', true)
        ∧ TreeAt h' (branch d c (branch d .black t a near) z (branch d .black far' b far)) p := by
  have hboth := ht.isBlack_children
  have hother := ht.isBlack_far
  rw [hfar] at hother
  -- The sibling is rotated below its red child, which leaves a red child on the other side.
  have hinner := treeAt_near.mp (treeAt_far.mp (treeAt_near.mpr ht))
  have hred := treeAt_near.mpr (hinner.setBlackred (top_branch ..))
  rw [blacken_branch, ← branch_flip d .red, ← branch_flip d .black] at hred
  rcases hred.rotate with ⟨h1, hrotate, ht1⟩
  rw [branch_flip, branch_flip] at ht1
  have hsibling := treeAt_near.mp (treeAt_far.mpr ht1)
  rcases removeColorLast_spec hsibling with ⟨h', hlast, ht'⟩
  refine ⟨h', ?_, ht'⟩
  have hnext : (h1.rbn a).child d.flip = some z := by
    rw [hsibling.context.1, RbEntry.child_flip_of]
    exact top_branch ..
  have hz : (h.rbn b).child d = some z := by
    rw [ht.sibling, RbEntry.child_of]
    exact top_branch ..
  have hnear : (branch d .red near z far').isRed = true := by
    cases d <;> rfl
  rw [RbHead.removeColorBlack, hboth, hother, hnear, hz]
  dsimp only [RbHead.setBlackred] at hrotate
  dsimp only [RbHead.blacken]
  rw [hrotate]
  dsimp only
  rw [hnext]
  dsimp only
  rw [hlast]
  simp

/--
What one round makes of a subtree with a black sibling: the loop goes on above, or the tree is repaired but
for the colour of its root.
-/
theorem removeColorBlack_spec (ht : TreeAt h t (⟨d, c, a, branch d .black near b far⟩ :: p))
    (hred : t.isRed = false)
    : near.isRed = false ∧ far.isRed = false
          ∧ (∃ h', h.removeColorBlack d a b = some (h', false)
            ∧ TreeAt h' (branch d c t a (branch d .red near b far)) p)
        ∨ ∃ h' u, h.removeColorBlack d a b = some (h', true) ∧ TreeAt h' u []
          ∧ RemoveFixed t (⟨d, c, a, branch d .black near b far⟩ :: p) u.blacken := by
  cases hfar : far.isRed with
  | true =>
    rcases removeColorBlack_outer ht hfar with ⟨h', hrun, ht'⟩
    exact .inr ⟨h', _, hrun, treeAt_plug.mpr ht', .outer hred hfar⟩
  | false =>
    cases hnear : near.isRed with
    | false => exact .inl ⟨rfl, rfl, removeColorBlack_recolor ht hnear hfar⟩
    | true =>
      rcases exists_red_branch hnear d with ⟨near, z, far', rfl⟩
      rcases removeColorBlack_inner ht hfar with ⟨h', hrun, ht'⟩
      exact .inr ⟨h', _, hrun, treeAt_plug.mpr ht', .inner hred hfar⟩

theorem removeColorSide_black (ht : TreeAt h t (⟨d, c, a, branch d .black near b far⟩ :: p))
    : h.removeColorSide d a = h.removeColorBlack d a b := by
  have hchild : (h.rbn a).child d.flip = some b := by
    rw [ht.context.1, RbEntry.child_flip_of]
    exact top_branch ..
  have hblack : (h.rbn b).rbeColor ≠ .red := by
    rw [ht.sibling, RbEntry.rbeColor_of]
    decide
  rw [RbHead.removeColorSide, hchild]
  exact if_neg hblack

/-- A red sibling is rotated away, and its child on this side is the sibling then. -/
theorem removeColorSide_red {far' : RbTree Addr} {z : Addr}
    (ht : TreeAt h t (⟨d, c, a, branch d .red (branch d .black near z far') b far⟩ :: p))
    : ∃ h', h.removeColorSide d a = h'.removeColorBlack d a z
        ∧ TreeAt h' t (⟨d, .red, a, branch d .black near z far'⟩ :: ⟨d, .black, b, far⟩ :: p) := by
  have hchild : (h.rbn a).child d.flip = some b := by
    rw [ht.context.1, RbEntry.child_flip_of]
    exact top_branch ..
  have hcolor : (h.rbn b).rbeColor = .red := by
    rw [ht.sibling, RbEntry.rbeColor_of]
  have hblack := (treeAt_far.mp (treeAt_near.mpr ht)).setBlackred (top_branch ..)
  rw [blacken_branch] at hblack
  rcases (treeAt_far.mpr hblack).rotate with ⟨h', hrotate, ht'⟩
  have ht2 := treeAt_near.mp (treeAt_near.mp ht')
  have hnext : (h'.rbn a).child d.flip = some z := by
    rw [ht2.context.1, RbEntry.child_flip_of]
    exact top_branch ..
  refine ⟨h', ?_, ht2⟩
  rw [RbHead.removeColorSide, hchild]
  dsimp only
  rw [if_pos hcolor, hrotate]
  dsimp only
  rw [hnext]

end Rounds

section Loop

/--
One round with a subtree that is one black node too low: it is repaired, or it is the subtree above that is
too low now. That one is red, or it has a shorter path.
-/
theorem removeColorSide_spec (ht : TreeAt h t (⟨d, c, a, s⟩ :: p)) (hred : t.isRed = false)
    (hlow : RedBlack t .black n) (hfits : Fits (⟨d, c, a, s⟩ :: p) .black (n + 1))
    : (∃ h' u, h.removeColorSide d a = some (h', true) ∧ TreeAt h' u []
          ∧ RemoveFixed t (⟨d, c, a, s⟩ :: p) u.blacken)
        ∨ ∃ h' t' p' m, h.removeColorSide d a = some (h', false) ∧ TreeAt h' t' p' ∧ t'.top = some a
          ∧ Low t' m ∧ Fits p' .black (m + 1) ∧ (t'.isRed = false → p'.length ≤ p.length)
          ∧ ∀ u, RemoveFixed t' p' u → RemoveFixed t (⟨d, c, a, s⟩ :: p) u := by
  rcases hfits.frame_inv with ⟨cs, hs, hp, hcs⟩
  rcases hs.exists_branch (by omega) d with ⟨near, b, far, rfl⟩
  cases cs with
  | black =>
    rw [removeColorSide_black ht]
    rcases hs.black_branch_inv with ⟨cn, cf, hn, hf⟩
    rcases removeColorBlack_spec ht hred with ⟨hnear, hfar, h', hrun, ht'⟩ | ⟨h', u, hrun, ht', hfixed⟩
    . refine .inr ⟨h', _, p, n + c.weight, hrun, ht', top_branch .., ?_, ?_, fun _ => Nat.le_refl _, ?_⟩
      . exact hlow.low_branch (hn.black_of_not_red hnear) (hf.black_of_not_red hfar)
      . rw [Nat.add_right_comm]
        exact hp.black
      . exact fun u hu => .recolor hred hnear hfar hu
    . exact .inl ⟨h', u, hrun, ht', hfixed⟩
  | red =>
    rcases hs.red_branch_inv with ⟨hn, hf⟩
    obtain rfl : c = .black := by
      cases c with
      | red => exact absurd (hcs rfl).1 (by decide)
      | black => rfl
    rcases hn.exists_branch (by omega) d with ⟨near, z, far', rfl⟩
    rcases hn.black_branch_inv with ⟨cn, cf, hn, hf'⟩
    rcases removeColorSide_red ht with ⟨h1, hside, ht1⟩
    rw [hside]
    rcases removeColorBlack_spec ht1 hred with ⟨hnear, hfar, h', hrun, ht'⟩ | ⟨h', u, hrun, ht', hfixed⟩
    . refine .inr ⟨h', _, _, n + Color.red.weight, hrun, ht', top_branch .., ?_, ?_, ?_, ?_⟩
      . exact hlow.low_branch (hn.black_of_not_red hnear) (hf'.black_of_not_red hfar)
      . exact .frame hf hp (by simp)
      -- The path has become longer, but the subtree at its end is red.
      . intro hblack
        cases d <;> contradiction
      . exact fun u hu => .sibling hred (.recolor hred hnear hfar hu)
    . exact .inl ⟨h', u, hrun, ht', .sibling hred hfixed⟩

theorem TreeAt.top_ne_root (ht : TreeAt h t (f :: p)) : t.top ≠ h.rbhRoot := by
  rcases exists_top_plug t f p with ⟨x, hx, hplug⟩
  have hroot : h.rbhRoot = some x := (treeAt_plug.mpr ht).context.trans hplug
  rw [hroot]
  intro htop
  exact (nodup_plug.mp ht.nodup).2.2 (mem_of_top htop) hx

theorem removeColor_round (ht : TreeAt h t (f :: p)) (hred : t.isRed = false) (hs : f.sibling.top ≠ none)
    (rounds : Nat)
    : h.removeColor (some f.label) t.top (rounds + 1)
        = (h.removeColorSide f.dir f.label).bind (fun next =>
            if next.2 then
              some (next.1.blacken next.1.rbhRoot)
            else
              next.1.removeColor (next.1.rbn f.label).rbeParent (some f.label) rounds) := by
  have hblack : h.isBlack t.top = true := by
    rw [ht.links.isBlack, hred]
    rfl
  rw [RbHead.removeColor, if_pos (by simp [hblack, ht.top_ne_root])]
  dsimp only
  rw [ht.side (.inl hs)]
  rcases h.removeColorSide f.dir f.label with _ | ⟨h', last⟩
  . rfl
  . cases last <;> rfl

/--
The loop repairs the tree, and it does so within as many rounds as there are nodes above.
-/
theorem removeColor_fixed (ht : TreeAt h t p) (hlow : Low t n) (hfits : Fits p .black (n + 1))
    (hrounds : 0 < rounds) (hlength : t.isRed = false → p.length < rounds)
    : ∃ h' u, h.removeColor (pathTop p) t.top rounds = some h' ∧ TreeAt h' u [] ∧ RemoveFixed t p u := by
  -- A round ends the loop, or the next one starts at a red subtree or has a shorter path.
  induction rounds generalizing h t p n with
  | zero => omega
  | succ rounds ih =>
    cases hred : t.isRed with
    | true =>
      have hexit : h.isBlack t.top = false := by
        rw [ht.links.isBlack, hred]
        rfl
      refine ⟨h.blacken t.top, _, ?_, treeAt_plug.mpr ht.blacken, .red hred⟩
      unfold RbHead.removeColor
      rw [hexit]
      rfl
    | false =>
      cases p with
      | nil =>
        refine ⟨h.blacken t.top, _, ?_, ht.blacken, .root t⟩
        have hroot : h.rbhRoot = t.top := ht.context
        unfold RbHead.removeColor
        rw [hroot, if_neg (by simp)]
      | cons f p =>
        rcases f with ⟨d, c, a, s⟩
        -- The sibling has a black node more than the subtree, so it is not a leaf.
        have hs : s.top ≠ none := by
          rcases hfits.frame_inv with ⟨cs, hs, _⟩
          rcases hs.exists_branch (by omega) d with ⟨near, b, far, rfl⟩
          exact Option.some_ne_none b
        have hround := removeColor_round ht hred hs rounds
        rw [pathTop, hround]
        rcases removeColorSide_spec ht hred (hlow.redBlack hred) hfits with
          ⟨h', u, hside, ht', hfixed⟩ | ⟨h1, t', p', m, hside, ht1, htop, hlow', hfits', hshorter, hfixed⟩
        . rw [hside]
          refine ⟨_, _, rfl, ?_, hfixed⟩
          have hroot : h'.rbhRoot = u.top := ht'.context
          rw [hroot]
          exact ht'.blacken
        . have hmore : p.length + 1 < rounds + 1 := hlength hred
          rw [hside]
          rcases ih ht1 hlow' hfits' (by omega) (fun hblack => by have := hshorter hblack; omega)
            with ⟨h', u, hrun, ht', hu⟩
          refine ⟨h', u, ?_, ht', hfixed u hu⟩
          rw [← ht1.parent_eq htop, htop] at hrun
          exact hrun

end Loop

end NgStack
