import DpdkLearning.Lib.RbTree
import DpdkLearning.Stack.Impl.Basic

/-!
This module contains the red-black tree of `nty_tree.h` as it lies in memory: items that are linked to their
children and their parents. The two mirrored halves of the macros are one function of the side. A function
gives `none` when it follows a null pointer or when a loop has not come to its end after the given number of
rounds.
-/

open Lib

namespace NgStack

/--
`RB_ENTRY`
-/
structure RbEntry where
  rbeLeft : Option Addr
  rbeRight : Option Addr
  rbeParent : Option Addr
  rbeColor : Color
  deriving DecidableEq, Repr

namespace RbEntry

/--
`RB_LEFT` or `RB_RIGHT`
-/
def child (e : RbEntry) (d : Dir) : Option Addr :=
  d.pick e.rbeLeft e.rbeRight

def setChild (e : RbEntry) (d : Dir) (x : Option Addr) : RbEntry :=
  match d with
  | .left => { e with rbeLeft := x }
  | .right => { e with rbeRight := x }

end RbEntry

/--
`RB_HEAD`, with the links of the items
-/
structure RbHead where
  rbhRoot : Option Addr
  rbn : Addr → RbEntry

namespace RbHead

def modify (h : RbHead) (a : Addr) (f : RbEntry → RbEntry) : RbHead :=
  { h with rbn := Function.update h.rbn a (f (h.rbn a)) }

def setColor (h : RbHead) (a : Addr) (color : Color) : RbHead :=
  h.modify a (fun e => { e with rbeColor := color })

def setParent (h : RbHead) (a : Addr) (parent : Option Addr) : RbHead :=
  h.modify a (fun e => { e with rbeParent := parent })

def setChild (h : RbHead) (a : Addr) (d : Dir) (x : Option Addr) : RbHead :=
  h.modify a (fun e => e.setChild d x)

/--
`if (x) RB_PARENT(x) = parent`
-/
def adopt (h : RbHead) (x parent : Option Addr) : RbHead :=
  match x with
  | none => h
  | some a => h.setParent a parent

/--
`if (x) RB_COLOR(x) = RB_BLACK`
-/
def blacken (h : RbHead) (x : Option Addr) : RbHead :=
  match x with
  | none => h
  | some a => h.setColor a .black

/--
`child` takes the place of `elm` below `parent`, or at the root.
-/
def replace (h : RbHead) (parent : Option Addr) (elm : Addr) (child : Option Addr) : RbHead :=
  match parent with
  | none => { h with rbhRoot := child }
  | some parent =>
    if (h.rbn parent).rbeLeft = some elm then
      h.setChild parent .left child
    else
      h.setChild parent .right child

/--
`RB_SET`
-/
def set (h : RbHead) (elm : Addr) (parent : Option Addr) : RbHead :=
  h.modify elm (fun _ => { rbeLeft := none, rbeRight := none, rbeParent := parent, rbeColor := .red })

/--
`elm` is linked on the side `d` of the parent, or at the root.
-/
def attach (h : RbHead) (parent : Option Addr) (d : Dir) (elm : Addr) : RbHead :=
  match parent with
  | none => { h with rbhRoot := some elm }
  | some parent => h.setChild parent d (some elm)

/--
`!x || RB_COLOR(x) == RB_BLACK`
-/
def isBlack (h : RbHead) (x : Option Addr) : Bool :=
  x.all (fun a => (h.rbn a).rbeColor == .black)

/--
`RB_SET_BLACKRED`
-/
def setBlackred (h : RbHead) (black red : Addr) : RbHead :=
  (h.setColor black .black).setColor red .red

/--
`RB_ROTATE_LEFT` or `RB_ROTATE_RIGHT`
-/
def rotate (h : RbHead) (d : Dir) (elm : Addr) : Option RbHead :=
  match (h.rbn elm).child d.flip with
  | none => none
  | some tmp =>
    let inner := (h.rbn tmp).child d
    let h := h.setChild elm d.flip inner
    let h := h.adopt inner (some elm)
    let parent := (h.rbn elm).rbeParent
    let h := h.setParent tmp parent
    let h := h.replace parent elm (some tmp)
    let h := h.setChild tmp d (some elm)
    some (h.setParent elm (some tmp))

/--
One round of the loop of `RB_INSERT_COLOR` with the parent on the side `d`. It gives the next `elm`.
-/
def insertColorSide (h : RbHead) (d : Dir) (elm parent gparent : Addr) : Option (RbHead × Addr) :=
  let tmp := (h.rbn gparent).child d.flip
  if !h.isBlack tmp then
    some ((h.blacken tmp).setBlackred parent gparent, gparent)
  else if (h.rbn parent).child d.flip = some elm then
    -- `elm` and `parent` change places.
    match h.rotate d parent with
    | none => none
    | some h => ((h.setBlackred elm gparent).rotate d.flip gparent).map (fun h => (h, parent))
  else
    ((h.setBlackred parent gparent).rotate d.flip gparent).map (fun h => (h, elm))

/--
`RB_INSERT_COLOR`
-/
def insertColor (h : RbHead) (elm : Addr) : Nat → Option RbHead
  | 0 => none
  | rounds + 1 =>
    let parent := (h.rbn elm).rbeParent
    if h.isBlack parent then
      match h.rbhRoot with
      | none => none
      | some root => some (h.setColor root .black)
    else
      match parent.bind (fun parent => (h.rbn parent).rbeParent.map (fun gparent => (parent, gparent))) with
      | none => none
      | some (parent, gparent) =>
        let d := if (h.rbn gparent).rbeLeft = some parent then .left else .right
        match h.insertColorSide d elm parent gparent with
        | none => none
        | some (h, elm) => insertColor h elm rounds

/--
The end of the loop of `RB_REMOVE_COLOR`, with a sibling `tmp` that has a red child on the other side than `d`.
-/
def removeColorLast (h : RbHead) (d : Dir) (parent tmp : Addr) : Option RbHead :=
  let h := h.setColor tmp (h.rbn parent).rbeColor
  let h := h.setColor parent .black
  let h := h.blacken ((h.rbn tmp).child d.flip)
  h.rotate d parent

/--
What `RB_REMOVE_COLOR` does with a sibling `tmp` that is not red. It tells if the loop ends there.
-/
def removeColorBlack (h : RbHead) (d : Dir) (parent tmp : Addr) : Option (RbHead × Bool) :=
  if h.isBlack (h.rbn tmp).rbeLeft && h.isBlack (h.rbn tmp).rbeRight then
    some (h.setColor tmp .red, false)
  else if h.isBlack ((h.rbn tmp).child d.flip) then
    let h := h.blacken ((h.rbn tmp).child d)
    match (h.setColor tmp .red).rotate d.flip tmp with
    | none => none
    | some h =>
      match (h.rbn parent).child d.flip with
      | none => none
      | some tmp => (h.removeColorLast d parent tmp).map (fun h => (h, true))
  else
    (h.removeColorLast d parent tmp).map (fun h => (h, true))

/--
One round of the loop of `RB_REMOVE_COLOR` with `elm` on the side `d`.
-/
def removeColorSide (h : RbHead) (d : Dir) (parent : Addr) : Option (RbHead × Bool) :=
  match (h.rbn parent).child d.flip with
  | none => none
  | some tmp =>
    if (h.rbn tmp).rbeColor = .red then
      match (h.setBlackred tmp parent).rotate d parent with
      | none => none
      | some h =>
        match (h.rbn parent).child d.flip with
        | none => none
        | some tmp => h.removeColorBlack d parent tmp
    else
      h.removeColorBlack d parent tmp

/--
`RB_REMOVE_COLOR`
-/
def removeColor (h : RbHead) (parent elm : Option Addr) : Nat → Option RbHead
  | 0 => none
  | rounds + 1 =>
    if h.isBlack elm && elm != h.rbhRoot then
      match parent with
      | none => none
      | some parent =>
        let d := if (h.rbn parent).rbeLeft = elm then .left else .right
        match h.removeColorSide d parent with
        | none => none
        | some (h, true) => some (h.blacken h.rbhRoot)
        | some (h, false) => removeColor h (h.rbn parent).rbeParent (some parent) rounds
    else
      some (h.blacken elm)

/--
The loop of `RB_REMOVE` that looks for the successor.
-/
def leftmost (h : RbHead) (elm : Addr) : Nat → Option Addr
  | 0 => none
  | rounds + 1 =>
    match (h.rbn elm).rbeLeft with
    | none => some elm
    | some left => leftmost h left rounds

/--
The loop of `RB_REMOVE` that goes up to the root. `RB_AUGMENT` is empty.
-/
def augment (h : RbHead) (parent : Option Addr) : Nat → Option Unit
  | 0 => none
  | rounds + 1 =>
    match parent with
    | none => some ()
    | some left => augment h (h.rbn left).rbeParent rounds

/--
`elm`, which has no more than the one child, is taken out.
-/
def removeOuter (h : RbHead) (elm : Addr) (child : Option Addr) (rounds : Nat) : Option RbHead :=
  let parent := (h.rbn elm).rbeParent
  let color := (h.rbn elm).rbeColor
  let h := h.adopt child parent
  let h := h.replace parent elm child
  if color = .black then h.removeColor parent child rounds else some h

/--
`old`, which has two children, is taken out, and its successor takes its place.
-/
def removeInner (h : RbHead) (old right : Addr) (rounds : Nat) : Option RbHead :=
  match h.leftmost right rounds with
  | none => none
  | some elm =>
    let child := (h.rbn elm).rbeRight
    let parent := (h.rbn elm).rbeParent
    let color := (h.rbn elm).rbeColor
    let h := h.adopt child parent
    let h := h.replace parent elm child
    let parent := if (h.rbn elm).rbeParent = some old then some elm else parent
    let h := h.modify elm (fun _ => h.rbn old)
    let h := h.replace (h.rbn old).rbeParent old (some elm)
    match (h.rbn old).rbeLeft with
    | none => none
    | some left =>
      let h := h.setParent left (some elm)
      let h := h.adopt (h.rbn old).rbeRight (some elm)
      match h.augment parent rounds with
      | none => none
      | some _ => if color = .black then h.removeColor parent child rounds else some h

/--
`RB_REMOVE`
-/
def remove (h : RbHead) (elm : Addr) (rounds : Nat) : Option RbHead :=
  match (h.rbn elm).rbeLeft, (h.rbn elm).rbeRight with
  | none, child => h.removeOuter elm child rounds
  | some left, none => h.removeOuter elm (some left) rounds
  | some _, some right => h.removeInner elm right rounds

/--
The descent of `RB_INSERT` and `RB_FIND`: the item it ends at, if any, else the last item it passed and how it
compared. `comp` compares with the item at an address.
-/
def descend (h : RbHead) (comp : Addr → Option Int) (tmp parent : Option Addr) (last : Int)
    : Nat → Option (Option Addr × Option Addr × Int)
  | 0 => none
  | rounds + 1 =>
    match tmp with
    | none => some (none, parent, last)
    | some tmp =>
      match comp tmp with
      | none => none
      | some comp' =>
        if comp' < 0 then
          descend h comp (h.rbn tmp).rbeLeft (some tmp) comp' rounds
        else if comp' > 0 then
          descend h comp (h.rbn tmp).rbeRight (some tmp) comp' rounds
        else
          some (some tmp, some tmp, comp')

/--
`RB_FIND`
-/
def find (h : RbHead) (comp : Addr → Option Int) (rounds : Nat) : Option (Option Addr) :=
  (h.descend comp h.rbhRoot none 0 rounds).map Prod.fst

/--
`RB_INSERT`. It gives the item that is there already, if any.
-/
def insert (h : RbHead) (comp : Addr → Option Int) (elm : Addr) (rounds : Nat)
    : Option (RbHead × Option Addr) :=
  match h.descend comp h.rbhRoot none 0 rounds with
  | none => none
  | some (some tmp, _) => some (h, some tmp)
  | some (none, parent, comp') =>
    let h := h.set elm parent
    let h := h.attach parent (if comp' < 0 then .left else .right) elm
    (h.insertColor elm rounds).map (fun h => (h, none))

end RbHead

end NgStack
