import DpdkLearning.Stack.Lemmas.RbRemoveColor

/-!
This module contains that `RB_REMOVE` takes an item out of the tree: an item with a child at most is unlinked,
and an item with two children makes room for its successor, which is unlinked first.
-/

open Lib RbTree

namespace NgStack

variable {h : RbHead} {t l r near far : RbTree Addr} {p q : List (Frame Addr)} {d : Dir} {c c' : Color}
  {a b x : Addr} {elm old : Addr} {parent : Option Addr} {n rounds : Nat}

theorem treeAt_append : TreeAt h t (q ++ p) ↔ TreeAt h (plug t q) p := by
  rw [← treeAt_plug, plug_append, treeAt_plug]

theorem RbHead.rbn_adopt_of_not_mem (hx : x ∉ t.toList) : (h.adopt t.top parent).rbn x = h.rbn x :=
  rbn_adopt_of_ne (fun htop => hx (mem_of_top htop))

section Unlink

theorem treeAt_unlink (ht : TreeAt h (branch d c .leaf elm t) p)
    : TreeAt ((h.adopt t.top (pathTop p)).replace (pathTop p) elm t.top) t p
        ∧ ((h.adopt t.top (pathTop p)).replace (pathTop p) elm t.top).rbn elm = h.rbn elm := by
  rcases treeAt_branch.mp ht with ⟨_, _, hlinks, hcontext, hnodup⟩
  rcases nodup_plug_branch.mp hnodup with ⟨_, helm, _, htnodup, _, hpath, helmpath, _, htpath⟩
  have hcontext' : Context (h.adopt t.top (pathTop p)) (some elm) p := by
    apply hcontext.congr RbHead.rbhRoot_adopt
    intro x hx
    exact RbHead.rbn_adopt_of_not_mem (fun hxt => htpath hxt hx)
  rcases hcontext'.replace (x := t.top) hpath helmpath with ⟨hend, hoff⟩
  refine ⟨⟨?_, hend, ?_⟩, ?_⟩
  . apply (hlinks.adopt htnodup).congr
    intro x hx
    exact hoff x (htpath hx)
  . exact nodup_plug.mpr ⟨htnodup, hpath, htpath⟩
  . rw [hoff elm helmpath, RbHead.rbn_adopt_of_not_mem helm]

end Unlink

section Successor

theorem leftmost_spec (hlinks : Links h.rbn parent t) (htop : t.top = some a)
    (hrounds : t.toList.length ≤ rounds)
    : ∃ c elm s q, t = plug (.node c .leaf elm s) q ∧ before q = [] ∧ h.leftmost a rounds = some elm := by
  induction t generalizing parent a rounds with
  | leaf => contradiction
  | node c l b r ihl =>
    cases htop
    simp only [toList, List.length_append, List.length_cons] at hrounds
    cases rounds with
    | zero => omega
    | succ rounds =>
      unfold RbHead.leftmost
      rw [hlinks.1]
      cases l with
      | leaf => exact ⟨c, b, r, [], rfl, rfl, rfl⟩
      | node cl ll z lr =>
        have hleft : (node cl ll z lr).toList.length ≤ rounds := by omega
        rcases ihl hlinks.2.1 rfl hleft with ⟨c', elm, s, q, heq, hq, hrun⟩
        refine ⟨c', elm, s, q ++ [⟨.left, c, b, r⟩], ?_, ?_, hrun⟩
        . rw [plug_append, ← heq]
          rfl
        . rw [before_append, hq]
          rfl

theorem augment_spec {y : Option Addr} (hcontext : Context h y p) (hrounds : p.length < rounds)
    : h.augment (pathTop p) rounds = some () := by
  induction p generalizing y rounds with
  | nil =>
    cases rounds with
    | zero => contradiction
    | succ rounds => rfl
  | cons f p ih =>
    cases rounds with
    | zero => contradiction
    | succ rounds =>
      dsimp only [pathTop, RbHead.augment]
      rw [hcontext.1, RbEntry.rbeParent_of]
      exact ih hcontext.2.2 (Nat.lt_of_succ_lt_succ hrounds)

theorem treeAt_substitute {h' : RbHead} (ht : TreeAt h (.node c l old r) p)
    (helm : elm ∉ (plug (.node c l old r) p).toList)
    (hh : h' = (h.modify elm (fun _ => h.rbn old)).replace (pathTop p) old (some elm))
    : h'.rbn old = h.rbn old
        ∧ TreeAt ((h'.adopt l.top (some elm)).adopt r.top (some elm)) (.node c l elm r) p := by
  rcases treeAt_branch (d := .left).mp ht with ⟨hentry, hl, hr, hcontext, hnodup⟩
  rcases nodup_plug_branch (d := .left).mp hnodup with
    ⟨holdl, holdr, hlnodup, hrnodup, hlr, hpath, holdpath, hlpath, hrpath⟩
  have helm' : elm ≠ old ∧ elm ∉ l.toList ∧ elm ∉ r.toList ∧ elm ∉ around p := by
    simp only [mem_plug, toList, List.mem_append, List.mem_cons, not_or] at helm
    tauto
  rcases helm' with ⟨hne, helml, helmr, helmpath⟩
  have hmodify : ∀ x, x ≠ elm → (h.modify elm (fun _ => h.rbn old)).rbn x = h.rbn x :=
    fun x hx => RbHead.rbn_modify_of_ne _ hx
  have hcontext1 : Context (h.modify elm (fun _ => h.rbn old)) (some old) p := by
    apply hcontext.congr
    . rfl
    . intro x hx
      exact hmodify x (ne_of_mem_of_not_mem hx helmpath)
  rcases hcontext1.replace (x := some elm) hpath holdpath with ⟨hcontext2, hoff⟩
  rw [← hh] at hcontext2 hoff
  -- No entry outside the path is written but the one of `elm`.
  have hkept : ∀ x, x ≠ elm → x ∉ around p → h'.rbn x = h.rbn x := by
    intro x hx hxp
    rw [hoff x hxp, hmodify x hx]
  have hl2 : Links h'.rbn (some old) l := by
    apply hl.congr
    intro x hx
    exact hkept x (ne_of_mem_of_not_mem hx helml) (hlpath hx)
  have hr2 : Links h'.rbn (some old) r := by
    apply hr.congr
    intro x hx
    exact hkept x (ne_of_mem_of_not_mem hx helmr) (hrpath hx)
  refine ⟨hkept old (Ne.symm hne) holdpath, treeAt_branch (d := .left).mpr ⟨?_, ?_, ?_, ?_, ?_⟩⟩
  -- The children get `elm` as their parent, and everything else in memory is apart from them.
  . rw [RbHead.rbn_adopt_of_not_mem helmr, RbHead.rbn_adopt_of_not_mem helml, hoff elm helmpath,
      RbHead.rbn_modify_self]
    exact hentry
  . apply (hl2.adopt hlnodup).congr
    intro x hx
    exact RbHead.rbn_adopt_of_not_mem (hlr hx)
  . apply Links.adopt _ hrnodup
    . exact some old
    . apply hr2.congr
      intro x hx
      exact RbHead.rbn_adopt_of_not_mem (fun hxl => hlr hxl hx)
  . apply hcontext2.congr
    . rw [RbHead.rbhRoot_adopt, RbHead.rbhRoot_adopt]
    . intro x hx
      rw [RbHead.rbn_adopt_of_not_mem (fun hxr => hrpath hxr hx),
        RbHead.rbn_adopt_of_not_mem (fun hxl => hlpath hxl hx)]
  . exact nodup_plug_branch (d := .left).mpr
      ⟨helml, helmr, hlnodup, hrnodup, hlr, hpath, helmpath, hlpath, hrpath⟩

end Successor

section Remove

/--
The end of `RB_REMOVE`: the place of an unlinked item is one black node too low if the item was black.
-/
theorem removeColor_spec {ct : Color} (ht : TreeAt h t p) (hbal : RedBlack t ct n)
    (hfits : Fits p c (n + c.weight)) (hred : c = .red → ct = .black) (hrounds : p.length < rounds)
    : ∃ h' u, (if c = .black then h.removeColor (pathTop p) t.top rounds else some h) = some h'
        ∧ TreeAt h' u [] ∧ u.toList = (plug t p).toList ∧ ∃ m, RedBlack u .black m := by
  cases c with
  | red =>
    rw [hred rfl] at hbal
    exact ⟨h, plug t p, rfl, treeAt_plug.mpr ht, rfl, hfits.black.plug hbal⟩
  | black =>
    rcases removeColor_fixed ht hbal.low hfits (by omega) (fun _ => hrounds) with ⟨h', u, hrun, ht', hfixed⟩
    exact ⟨h', u, hrun, ht', hfixed.toList, hfixed.redBlack hbal.low hfits⟩

theorem removeOuter_spec (ht : TreeAt h (branch d c .leaf elm t) p)
    (hbal : RedBlack (plug (branch d c .leaf elm t) p) .black n) (hrounds : p.length < rounds)
    : ∃ h' u, h.removeOuter elm t.top rounds = some h' ∧ TreeAt h' u []
        ∧ u.toList = (plug (branch d c .leaf elm t) p).toList.erase elm ∧ ∃ m, RedBlack u .black m := by
  rcases hbal.exists_fits with ⟨_, _, hbranch, hfits⟩
  rcases hbranch.branch_inv with ⟨cl, ct, m, _, hchild, hred, rfl, rfl⟩
  have hapart := nodup_plug_branch.mp ht.nodup
  rcases treeAt_branch.mp ht with ⟨hentry, _⟩
  rcases treeAt_unlink ht with ⟨ht', _⟩
  rcases removeColor_spec ht' hchild hfits (fun h => (hred h).2) hrounds with ⟨h', u, hrun, hu, heq, hbal'⟩
  refine ⟨h', u, ?_, hu, ?_, hbal'⟩
  . unfold RbHead.removeOuter
    rw [hentry, RbEntry.rbeParent_of, RbEntry.rbeColor_of]
    exact hrun
  . rw [heq]
    exact toList_plug_erase (mem_branch.mpr (.inl rfl)) hapart.2.2.2.2.2.2.1 (toList_erase_outer hapart.2.1)

theorem pathTop_successor {l : RbTree Addr} (hold : old ∉ around q)
    : (if pathTop (q ++ ⟨.right, c, old, l⟩ :: p) = some old then some elm
          else pathTop (q ++ ⟨.right, c, old, l⟩ :: p))
        = pathTop (q ++ ⟨.right, c, elm, l⟩ :: p) := by
  cases q with
  | nil => exact if_pos rfl
  | cons f q =>
    apply if_neg
    intro heq
    apply hold
    rw [← Option.some.inj heq]
    exact List.mem_cons_self

/-- The successor is unlinked and takes the place of the item. -/
theorem removeInner_swap {s : RbTree Addr} {y z : Addr}
    (ht : TreeAt h (.node c l old (plug (.node c' .leaf elm s) q)) p) (hl : l.top = some y)
    (hleftmost : h.leftmost z rounds = some elm) (hrounds : (q ++ ⟨.right, c, elm, l⟩ :: p).length < rounds)
    : ∃ h', TreeAt h' s (q ++ ⟨.right, c, elm, l⟩ :: p)
        ∧ h.removeInner old z rounds
            = if c' = .black then
                h'.removeColor (pathTop (q ++ ⟨.right, c, elm, l⟩ :: p)) s.top rounds
              else
                some h' := by
  have holdapart := (nodup_plug_branch (d := .left)).mp ht.nodup
  have hold : old ∉ around q := fun hmem => holdapart.2.1 (mem_plug.mpr (.inr hmem))
  have helm : TreeAt h _ (q ++ ⟨.right, c, old, l⟩ :: p) :=
    treeAt_append.mpr ((treeAt_far (d := .left)).mp ht)
  have hentry : h.rbn elm = ⟨none, s.top, _, c'⟩ := helm.links.1
  have helmapart := (nodup_plug_branch (d := .left)).mp helm.nodup
  -- `h1` has the successor unlinked, `h2` has it below the parent of the item.
  rcases treeAt_unlink (d := .left) helm with ⟨ht1, hentry1⟩
  generalize hh1 : (h.adopt s.top _).replace _ elm s.top = h1 at ht1 hentry1
  have hnode : TreeAt h1 (.node c l old (plug s q)) p := (treeAt_near (d := .right)).mpr (treeAt_append.mp ht1)
  have hentry2 : h1.rbn old = ⟨l.top, (plug s q).top, pathTop p, c⟩ := hnode.links.1
  have hnew : elm ∉ (plug (.node c l old (plug s q)) p).toList := by
    have hsame : plug s (q ++ ⟨.right, c, old, l⟩ :: p) = plug (.node c l old (plug s q)) p := plug_append ..
    rw [← hsame, mem_plug, not_or]
    exact ⟨helmapart.2.1, helmapart.2.2.2.2.2.2.1⟩
  have hne : old ≠ elm := by
    rintro rfl
    exact hnew (mem_plug.mpr (.inl (by simp [toList])))
  rcases treeAt_substitute hnode hnew rfl with ⟨hold2, ht2⟩
  generalize hh2 : (h1.modify elm _).replace _ old (some elm) = h2 at hold2 ht2
  have hplace : TreeAt _ s (q ++ ⟨.right, c, elm, l⟩ :: p) :=
    treeAt_append.mpr ((treeAt_near (d := .right)).mp ht2)
  refine ⟨_, hplace, ?_⟩
  have hchild : (h.rbn elm).rbeRight = s.top := by rw [hentry]
  have hparent : (h.rbn elm).rbeParent = pathTop (q ++ ⟨.right, c, old, l⟩ :: p) := by rw [hentry]
  have hcolor : (h.rbn elm).rbeColor = c' := by rw [hentry]
  have hgrand : ((h1.modify elm (fun _ => h1.rbn old)).rbn old).rbeParent = pathTop p := by
    rw [RbHead.rbn_modify_of_ne _ hne, hentry2]
  have hleft : (h2.rbn old).rbeLeft = l.top := by rw [hold2, hentry2]
  have hright : ((h2.adopt l.top (some elm)).rbn old).rbeRight = (plug s q).top := by
    rw [RbHead.rbn_adopt_of_not_mem holdapart.1, hold2, hentry2]
  have haugment := augment_spec hplace.context hrounds
  rw [hl] at hleft hright haugment ⊢
  unfold RbHead.removeInner
  rw [hleftmost]
  dsimp only
  rw [hchild, hparent, hcolor, hh1, hentry1, hparent, pathTop_successor hold, hgrand, hh2, hleft]
  dsimp only [RbHead.adopt] at hright haugment ⊢
  rw [hright, haugment]

theorem removeInner_spec {y z : Addr} (ht : TreeAt h (.node c l old r) p)
    (hbal : RedBlack (plug (.node c l old r) p) .black n) (hl : l.top = some y) (hr : r.top = some z)
    (hrounds : (plug (.node c l old r) p).toList.length < rounds)
    : ∃ h' u, h.removeInner old z rounds = some h' ∧ TreeAt h' u []
        ∧ u.toList = (plug (.node c l old r) p).toList.erase old ∧ ∃ m, RedBlack u .black m := by
  have hlength := length_le_plug (.node c l old r) p
  simp only [toList, List.length_append, List.length_cons] at hlength
  have hright : r.toList.length ≤ rounds := by omega
  rcases leftmost_spec ht.links.2.2 hr hright with ⟨c', elm, s, q, rfl, hq, hleftmost⟩
  have hpath := length_le_plug (node c' leaf elm s) q
  have hrounds : (q ++ ⟨.right, c, elm, l⟩ :: p).length < rounds := by
    simp only [List.length_append, List.length_cons]
    omega
  rcases removeInner_swap ht hl hleftmost hrounds with ⟨h1, hplace, hrun1⟩
  have hsame : plug (node c' leaf elm s) (q ++ ⟨.right, c, old, l⟩ :: p)
      = plug (.node c l old (plug (node c' leaf elm s) q)) p := plug_append ..
  have hbal' := hbal
  rw [← hsame] at hbal'
  rcases hbal'.exists_fits with ⟨cb, _, hbranch, hfits⟩
  rcases (RedBlack.branch_inv (d := .left)) hbranch with ⟨cl, ct, m, _, hchild, hred, hc, rfl⟩
  subst cb
  rcases removeColor_spec hplace hchild (hfits.relabel elm) (fun h => (hred h).2) hrounds
    with ⟨h', u, hrun, hu, heq, hbal'⟩
  refine ⟨h', u, hrun1.trans hrun, hu, ?_, hbal'⟩
  have holdapart := (nodup_plug_branch (d := .left)).mp ht.nodup
  rw [heq, plug_append]
  apply toList_plug_erase (p := p) (u := .node c l elm (plug s q))
  . simp [toList]
  . exact holdapart.2.2.2.2.2.2.1
  . exact toList_erase_inner holdapart.1 hq rfl

/--
`RB_REMOVE` takes the item out of the tree.
-/
theorem remove_spec (ht : TreeAt h t []) (hbal : ∃ n, RedBlack t .black n) (helm : elm ∈ t.toList)
    (hrounds : t.toList.length < rounds)
    : ∃ h' u, h.remove elm rounds = some h' ∧ TreeAt h' u [] ∧ u.toList = t.toList.erase elm
        ∧ ∃ m, RedBlack u .black m := by
  rcases hbal with ⟨n, hbal⟩
  rcases exists_plug helm with ⟨c, l, r, p, rfl⟩
  have hnode := treeAt_plug.mp ht
  have hentry := hnode.links.1
  have hlength : p.length < rounds := by
    have := length_le_plug (.node c l elm r) p
    omega
  unfold RbHead.remove
  rw [hentry]
  cases l with
  | leaf => exact removeOuter_spec (d := .left) hnode hbal hlength
  | node cl ll y lr =>
    cases r with
    | leaf => exact removeOuter_spec (d := .right) hnode hbal hlength
    | node cr rl z rr => exact removeInner_spec hnode hbal rfl rfl hrounds

end Remove

end NgStack
