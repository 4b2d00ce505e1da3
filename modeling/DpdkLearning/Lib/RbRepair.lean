import DpdkLearning.Lib.RbTree

/-!
This module contains the repair of a red-black tree after an insertion or a removal. It is told by what it
makes of a subtree and its path, one case for each way the colours can be.
-/

namespace Lib

namespace RbTree

variable {α : Type}

section Insert

variable {t u : RbTree α} {p : List (Frame α)} {n : Nat}

/--
What the repair after an insertion makes of a red node at the end of a path: the node goes up as long as it
can be recoloured together with its uncle, and a rotation or two end it.
-/
inductive InsertFixed : RbTree α → List (Frame α) → RbTree α → Prop where
  | root (t : RbTree α) : InsertFixed t [] t.blacken
  | black {t : RbTree α} {f : Frame α} {p : List (Frame α)} (hf : f.color = .black)
    : InsertFixed t (f :: p) (plug t (f :: p)).blacken
  | recolor {d e : Dir} {t s l r u : RbTree α} {a b z : α} {p : List (Frame α)}
    (h : InsertFixed (branch e .red (branch d .black t a s) b (node .black l z r)) p u)
    : InsertFixed t (⟨d, .red, a, s⟩ :: ⟨e, .black, b, node .red l z r⟩ :: p) u
  | outer {d : Dir} {t s u : RbTree α} {a b : α} {p : List (Frame α)} (hu : u.isRed = false)
    : InsertFixed t (⟨d, .red, a, s⟩ :: ⟨d, .black, b, u⟩ :: p)
        (plug (branch d .black t a (branch d .red s b u)) p).blacken
  | inner {d : Dir} {near far s u : RbTree α} {a b z : α} {p : List (Frame α)} (hu : u.isRed = false)
    : InsertFixed (branch d .red near z far) (⟨d.flip, .red, a, s⟩ :: ⟨d, .black, b, u⟩ :: p)
        (plug (branch d .black (branch d .red s a near) z (branch d .red far b u)) p).blacken

theorem InsertFixed.toList (h : InsertFixed t p u) : u.toList = (plug t p).toList := by
  induction h with
  | root | black => exact toList_blacken _
  | @recolor d e =>
    next ih =>
    rw [ih]
    apply toList_plug_congr
    cases d <;> cases e <;> simp [toList_fill, Dir.pick, RbTree.toList]
  | @outer d =>
    rw [toList_blacken]
    apply toList_plug_congr
    cases d <;> simp [toList_fill, Dir.pick]
  | @inner d =>
    rw [toList_blacken]
    apply toList_plug_congr
    cases d <;> simp [toList_fill, Dir.pick, Dir.flip]

/-- A red node that is red-black itself and fits but for its colour ends up in a red-black tree. -/
theorem InsertFixed.redBlack (h : InsertFixed t p u) (ht : RedBlack t .red n) (hp : Fits p .black n)
    : ∃ m, RedBlack u .black m := by
  induction h generalizing n with
  | root => exact ht.blacken
  | black hf =>
    rcases (hp.of_black hf).plug ht with ⟨m, hm⟩
    exact hm.blacken
  | recolor h ih =>
    rcases hp.red_inv with ⟨hs, hp, _⟩
    rcases hp.black_inv with ⟨cu, hu, hp⟩
    cases hu with
    | node hl hr => exact ih ((ht.black_branch hs).red_branch (.node hl hr (by simp))) hp
  | outer hu =>
    rcases hp.red_inv with ⟨hs, hp, _⟩
    rcases hp.black_inv with ⟨cu, hu', hp⟩
    rcases hp.plug (ht.black_branch (hs.red_branch (hu'.black_of_not_red hu))) with ⟨m, hm⟩
    exact hm.blacken
  | inner hu =>
    rcases hp.red_inv with ⟨hs, hp, _⟩
    rcases hp.black_inv with ⟨cu, hu', hp⟩
    rcases ht.red_branch_inv with ⟨hnear, hfar⟩
    rcases hp.plug ((hs.red_branch hnear).black_branch (hfar.red_branch (hu'.black_of_not_red hu))) with ⟨m, hm⟩
    exact hm.blacken

end Insert

section Remove

variable {t u : RbTree α} {p : List (Frame α)} {n : Nat}

/--
What the repair after a removal makes of a subtree that is one black node too low for the end of its path. A
red sibling is rotated away first. A black one without red children is recoloured, and the subtree above takes
over; one with a red child takes part in a rotation that ends it.
-/
inductive RemoveFixed : RbTree α → List (Frame α) → RbTree α → Prop where
  | root (t : RbTree α) : RemoveFixed t [] t.blacken
  | red {t : RbTree α} {p : List (Frame α)} (ht : t.isRed = true) : RemoveFixed t p (plug t.blacken p)
  | sibling {d : Dir} {c : Color} {t near far u : RbTree α} {a b : α} {p : List (Frame α)}
    (ht : t.isRed = false) (h : RemoveFixed t (⟨d, .red, a, near⟩ :: ⟨d, .black, b, far⟩ :: p) u)
    : RemoveFixed t (⟨d, c, a, branch d .red near b far⟩ :: p) u
  | recolor {d : Dir} {c : Color} {t near far u : RbTree α} {a b : α} {p : List (Frame α)}
    (ht : t.isRed = false) (hnear : near.isRed = false) (hfar : far.isRed = false)
    (h : RemoveFixed (branch d c t a (branch d .red near b far)) p u)
    : RemoveFixed t (⟨d, c, a, branch d .black near b far⟩ :: p) u
  | outer {d : Dir} {c : Color} {t near far : RbTree α} {a b : α} {p : List (Frame α)}
    (ht : t.isRed = false) (hfar : far.isRed = true)
    : RemoveFixed t (⟨d, c, a, branch d .black near b far⟩ :: p)
        (plug (branch d c (branch d .black t a near) b far.blacken) p).blacken
  | inner {d : Dir} {c : Color} {t near far' far : RbTree α} {a b z : α} {p : List (Frame α)}
    (ht : t.isRed = false) (hfar : far.isRed = false)
    : RemoveFixed t (⟨d, c, a, branch d .black (branch d .red near z far') b far⟩ :: p)
        (plug (branch d c (branch d .black t a near) z (branch d .black far' b far)) p).blacken

theorem RemoveFixed.toList (h : RemoveFixed t p u) : u.toList = (plug t p).toList := by
  induction h with
  | root => exact toList_blacken _
  | red => exact toList_plug_congr (toList_blacken _) _
  | @sibling d _ _ _ _ _ _ _ p _ _ ih =>
    rw [ih]
    change (plug (Frame.fill _ (Frame.fill _ _)) p).toList = (plug (Frame.fill _ _) p).toList
    apply toList_plug_congr
    cases d <;> simp [toList_fill, Dir.pick]
  | @recolor d _ _ _ _ _ _ _ _ _ _ _ _ ih =>
    rw [ih]
    apply toList_plug_congr
    cases d <;> simp [toList_fill, Dir.pick]
  | @outer d | @inner d =>
    rw [toList_blacken]
    apply toList_plug_congr
    cases d <;> simp [toList_fill, Dir.pick]

/--
The subtree is as high as the end of the path asks for but for one black node, which it gets if it is red.
-/
def Low (t : RbTree α) (n : Nat) : Prop :=
  t.isRed = true ∧ RedBlack t.blacken .black (n + 1) ∨ t.isRed = false ∧ RedBlack t .black n

theorem RedBlack.low {c : Color} (h : RedBlack t c n) : Low t n := by
  cases hred : t.isRed with
  | false => exact .inr ⟨hred, h.black_of_not_red hred⟩
  | true => exact .inl ⟨hred, h.blacken_of_red hred⟩

theorem RedBlack.low_branch {d : Dir} {c : Color} {near far : RbTree α} {a b : α} (ht : RedBlack t .black n)
    (hn : RedBlack near .black n) (hf : RedBlack far .black n)
    : Low (RbTree.branch d c t a (RbTree.branch d .red near b far)) (n + c.weight) := by
  have hs : RedBlack (RbTree.branch d .red near b far) .red n := hn.red_branch hf
  cases c with
  | red =>
    refine .inl ⟨?_, ?_⟩
    . cases d <;> rfl
    . have := ht.black_branch (d := d) (a := a) hs
      cases d <;> exact this
  | black => exact (ht.black_branch hs).low

theorem Low.redBlack (h : Low t n) (ht : t.isRed = false) : RedBlack t .black n := by
  rcases h with ⟨hred, _⟩ | ⟨_, h⟩
  . rw [ht] at hred
    contradiction
  . exact h

/-- A subtree that is one black node too low ends up in a red-black tree. -/
theorem RemoveFixed.redBlack (h : RemoveFixed t p u) (ht : Low t n) (hp : Fits p .black (n + 1))
    : ∃ m, RedBlack u .black m := by
  -- The induction is on the rounds of the repair, with `Low` and `Fits` as its invariant.
  induction h generalizing n with
  | root =>
    rcases ht with ⟨_, ht⟩ | ⟨_, ht⟩
    . exact ⟨_, ht⟩
    . exact ht.blacken
  | red hred =>
    rcases ht with ⟨_, ht⟩ | ⟨hblack, _⟩
    . exact hp.plug ht
    . rw [hred] at hblack
      contradiction
  | @sibling d c _ _ _ _ _ _ _ hred h ih =>
    cases c with
    | red =>
      -- A red parent has no red child, so the sibling cannot be red there.
      have hs := hp.red_inv.1
      rcases hs.branch_inv with ⟨_, _, _, _, _, _, hc, _⟩
      contradiction
    | black =>
      rcases hp.black_inv with ⟨cs, hs, hp⟩
      rcases hs.red_branch_inv with ⟨hnear, hfar⟩
      apply ih ht
      exact .frame hnear (.frame hfar hp (by simp)) (by simp)
  | recolor hred hnear hfar h ih =>
    rcases hp.frame_inv with ⟨cs, hs, hp, _⟩
    rcases hs.black_branch_inv with ⟨cn, cf, hn, hf⟩
    rw [Nat.add_right_comm] at hp
    exact ih ((ht.redBlack hred).low_branch (hn.black_of_not_red hnear) (hf.black_of_not_red hfar)) hp.black
  | @outer d _ _ _ _ a _ _ hred hfar =>
    rcases hp.frame_inv with ⟨cs, hs, hp, _⟩
    rcases hs.black_branch_inv with ⟨cn, cf, hn, hf⟩
    have hleft := (ht.redBlack hred).black_branch (d := d) (a := a) hn
    rcases hp.plug (hleft.branch (hf.blacken_of_red hfar) (fun _ => ⟨rfl, rfl⟩)) with ⟨m, hm⟩
    exact hm.blacken
  | @inner d _ _ _ _ _ a _ _ _ hred hfar =>
    rcases hp.frame_inv with ⟨cs, hs, hp, _⟩
    rcases hs.black_branch_inv with ⟨cn, cf, hn, hf⟩
    rcases hn.red_branch_inv with ⟨hnear, hfar'⟩
    have hleft := (ht.redBlack hred).black_branch (d := d) (a := a) hnear
    rcases hp.plug (hleft.branch (hfar'.black_branch hf) (fun _ => ⟨rfl, rfl⟩)) with ⟨m, hm⟩
    exact hm.blacken

end Remove

end RbTree

end Lib
