import DpdkLearning.Stack.Impl.Epoll
import DpdkLearning.Stack.Impl.RbTree

/-!
This module contains the registry of an event poll with its tree as it lies in memory, and what `nepoll_ctl`
does with it. A search gives `none` where one of `nty_tree.h` does, or where it looks at an item that is gone.
-/

open Lib

namespace NgStack

def sockfdCmp (ep1 ep2 : Epitem) : Int :=
  if ep1.sockfd < ep2.sockfd then
    -1
  else if ep1.sockfd = ep2.sockfd then
    0
  else
    1

/--
The items of an event poll, the tree they are linked in and their number.
-/
structure Registry where
  items : ObjList Epitem
  rbr : RbHead
  rbcnt : Int32

/--
Why a call does not come back: a function of `nty_tree.h` follows a pointer that it must not, or the process is
aborted in `free`, with the registry as it is then.
-/
inductive RegistryHalt where
  | wildPointer
  | aborted (r : Registry)

namespace Registry

/--
What `nepoll_create` makes of the memory it is given.
-/
def init (rbn : Addr → RbEntry) : Registry where
  items := .empty
  rbr := { rbhRoot := none, rbn }
  rbcnt := 0

/--
`sockfd_cmp` of an item and the one at an address
-/
def comp (r : Registry) (elm : Epitem) (a : Addr) : Option Int :=
  (r.items.get? a).map (sockfdCmp elm)

/--
A loop over the tree is given one round more than there are items.
-/
def rounds (r : Registry) : Nat :=
  r.items.cells.length + 1

/--
`RB_FIND` with an item that has the socket and nothing else.
-/
def find (r : Registry) (sockid : Int) : Option (Option Addr) :=
  let tmp : Epitem := { (default : Epitem) with sockfd := sockid }
  r.rbr.find (r.comp tmp) r.rounds

/--
`nepoll_ctl` with a descriptor that denotes the event poll.
-/
def nepollCtl (env : Env) (r : Registry) (op sockid : Int) (event : Option EpollEvent)
    : Except RegistryHalt (Int × Registry) :=
  if event.isNone && op != epollCtlDel then
    .ok (-1, r)
  else if op = epollCtlAdd then
    match r.find sockid with
    | none => .error .wildPointer
    | some (some _) => .ok (-1, r)
    | some none =>
      if !env.rteMalloc 0 then
        .ok (-1, r)
      else
        let epi := { env.staleEpitem with sockfd := sockid, event := event.getD default }
        let elm := r.items.next
        let r := { r with items := r.items.add epi }
        match r.rbr.insert (r.comp epi) elm r.rounds with
        | none => .error .wildPointer
        | some (rbr, _) => .ok (0, { r with rbr, rbcnt := r.rbcnt + 1 })
  else if op = epollCtlDel then
    match r.find sockid with
    | none => .error .wildPointer
    | some none => .ok (-1, r)
    | some (some epi) =>
      match r.rbr.remove epi r.rounds with
      | none => .error .wildPointer
      -- The item is from `rte_malloc`, which `free` does not know.
      | some rbr => .error (.aborted { items := r.items.remove epi, rbr, rbcnt := r.rbcnt - 1 })
  else if op = epollCtlMod then
    match r.find sockid with
    | none => .error .wildPointer
    | some none => .ok (-1, r)
    | some (some epi) =>
      let events := (event.getD default).events ||| (epollerr ||| epollhup)
      .ok (0, { r with items := r.items.modify epi (fun epi => { epi with event.events := events }) })
  else
    .ok (0, r)

end Registry

end NgStack
