import DpdkLearning.Stack.Impl.Registry
import DpdkLearning.Stack.Lemmas.RbRemove
import DpdkLearning.Stack.Lemmas.System
import Mathlib.Data.Finset.Card

/-!
This module contains how far the registry of an event poll is a set of sockets, over any run of the calls that
change it: the tree is a red-black search tree after each of them, and a call is refused exactly when the set
has the socket already, or does not have it. A call that takes a socket out of the tree does not come back.
-/

open Lib RbTree

namespace NgStack

namespace Registry

/--
The socket of the item at an address.
-/
def sockfd (r : Registry) (a : Addr) : Int :=
  ((r.items.get? a).map Epitem.sockfd).getD 0

/--
The tree of the registry: it links all of the items and no others, its links are consistent, it is a search
tree without duplicates, and it is red-black.
-/
structure Linked (r : Registry) (t : RbTree Addr) : Prop where
  tree : TreeAt r.rbr t []
  sorted : Sorted r.sockfd t
  redBlack : ∃ n, RedBlack t .black n
  items : t.toList.Perm r.items.addrs

/--
The sockets of the items in a tree.
-/
def sockids (r : Registry) (t : RbTree Addr) : Finset Int :=
  (t.toList.map r.sockfd).toFinset

variable {r r' : Registry} {t t' : RbTree Addr} {sockid : Int} {a : Addr}

theorem sockfd_of_get? {epi : Epitem} (h : r.items.get? a = some epi) : r.sockfd a = epi.sockfd := by
  rw [sockfd, h]
  rfl

theorem linked_init (rbn : Addr → RbEntry) : (init rbn).Linked .leaf where
  tree := ⟨trivial, rfl, List.nodup_nil⟩
  sorted := .nil
  redBlack := ⟨0, .leaf⟩
  items := .nil

theorem sockfdCmp_compares {elm epi : Epitem} (h : r.items.get? a = some epi)
    : Compares (r.comp elm) r.sockfd elm.sockfd a := by
  refine ⟨sockfdCmp elm epi, ?_, ?_, ?_⟩
  . rw [comp, h]
    rfl
  . rw [sockfd_of_get? h, sockfdCmp]
    split_ifs <;> omega
  . rw [sockfd_of_get? h, sockfdCmp]
    split_ifs <;> omega

namespace Linked

theorem exists_item (h : r.Linked t) (ha : a ∈ t.toList) : ∃ epi, r.items.get? a = some epi := by
  rw [← Option.isSome_iff_exists, ObjList.isSome_get?_iff]
  exact h.items.mem_iff.mp ha

theorem mem_of_get? {epi : Epitem} (h : r.Linked t) (ha : r.items.get? a = some epi) : a ∈ t.toList :=
  h.items.mem_iff.mpr (ObjList.mem_addrs_of_get? ha)

theorem length_lt_rounds (h : r.Linked t) : t.toList.length < r.rounds := by
  have := h.items.length_eq
  simp only [ObjList.addrs, List.length_map] at this
  rw [rounds, this]
  exact Nat.lt_succ_self _

theorem mem_sockids : sockid ∈ r.sockids t ↔ ∃ a ∈ t.toList, r.sockfd a = sockid := by
  simp [sockids]

theorem find (h : r.Linked t) (sockid : Int)
    : ∃ found, r.find sockid = some found ∧ (found.isSome ↔ sockid ∈ r.sockids t)
        ∧ ∀ a, found = some a → a ∈ t.toList ∧ r.sockfd a = sockid := by
  have hcomp : ∀ a ∈ t.toList,
      Compares (r.comp { (default : Epitem) with sockfd := sockid }) r.sockfd sockid a := by
    intro a ha
    rcases h.exists_item ha with ⟨epi, hepi⟩
    exact sockfdCmp_compares hepi
  rcases find_spec h.tree h.sorted hcomp h.length_lt_rounds with ⟨found, hfind, hfound, hnone⟩
  refine ⟨found, hfind, ?_, hfound⟩
  rw [mem_sockids]
  cases found with
  | none => simpa using hnone rfl
  | some a => simpa using ⟨a, hfound a rfl⟩

theorem notMem_sockids (h : r.Linked t) (hnone : r.items.find? (fun epi => epi.sockfd == sockid) = none)
    : sockid ∉ r.sockids t := by
  intro hmem
  rcases mem_sockids.mp hmem with ⟨a, ha, hsockfd⟩
  rcases h.exists_item ha with ⟨epi, hepi⟩
  have hother := (ObjList.find?_eq_none_iff _ _).mp hnone a epi hepi
  rw [sockfd_of_get? hepi] at hsockfd
  simp [hsockfd] at hother

theorem nodup_sockfds (h : r.Linked t) : (t.toList.map r.sockfd).Nodup :=
  h.sorted.imp (fun hlt => ne_of_lt hlt)

theorem find_eq (h : r.Linked t) (sockid : Int)
    : r.find sockid = some ((r.items.find? (fun epi => epi.sockfd == sockid)).map Prod.fst) := by
  rcases h.find sockid with ⟨found, hfind, hiff, hfound⟩
  rw [hfind]
  cases found with
  | none =>
    rw [(ObjList.find?_eq_none_iff _ _).mpr]
    . rfl
    . intro b epi hb
      rw [beq_eq_false_iff_ne]
      intro heq
      have hnone := hiff.mpr (mem_sockids.mpr ⟨b, h.mem_of_get? hb, (sockfd_of_get? hb).trans heq⟩)
      contradiction
  | some a =>
    rcases hfound a rfl with ⟨ha, hsockfd⟩
    rcases h.exists_item ha with ⟨epi, hepi⟩
    rw [sockfd_of_get? hepi] at hsockfd
    rw [(ObjList.find?_eq_some_iff _ _ a epi).mpr]
    . rfl
    . refine ⟨hepi, beq_iff_eq.mpr hsockfd, ?_⟩
      intro b y hb hy
      have heq : r.sockfd b = r.sockfd a := by
        rw [sockfd_of_get? hb, sockfd_of_get? hepi, beq_iff_eq.mp hy, hsockfd]
      exact le_of_eq (List.inj_on_of_nodup_map h.nodup_sockfds (h.mem_of_get? hb) ha heq)

theorem sockids_cons {t t' : RbTree Addr} (hperm : t'.toList.Perm (a :: t.toList))
    (hsame : ∀ b ∈ t.toList, r'.sockfd b = r.sockfd b) (ha : r'.sockfd a = sockid)
    : r'.sockids t' = insert sockid (r.sockids t) := by
  rw [sockids, List.toFinset_eq_of_perm _ _ (hperm.map r'.sockfd), List.map_cons, List.toFinset_cons, ha,
    List.map_congr_left hsame]
  rfl

/-- An item for a new socket is added. -/
theorem add (h : r.Linked t) (epi : Epitem) (hnew : epi.sockfd ∉ r.sockids t)
    : ∃ rbr t', r.rbr.insert ({ r with items := r.items.add epi }.comp epi) r.items.next
            { r with items := r.items.add epi }.rounds = some (rbr, none)
        ∧ ∀ rbcnt, Linked { items := r.items.add epi, rbr, rbcnt } t'
          ∧ sockids { items := r.items.add epi, rbr, rbcnt } t' = insert epi.sockfd (r.sockids t) := by
  have hkept : ∀ b ∈ t.toList, ∀ rbr rbcnt,
      sockfd { items := r.items.add epi, rbr, rbcnt } b = r.sockfd b := by
    intro b hb rbr rbcnt
    rcases h.exists_item hb with ⟨x, hx⟩
    rw [sockfd_of_get? hx]
    exact sockfd_of_get? (ObjList.get?_add_of_get? epi hx)
  have hself : ∀ rbr rbcnt, sockfd { items := r.items.add epi, rbr, rbcnt } r.items.next = epi.sockfd :=
    fun _ _ => sockfd_of_get? (ObjList.get?_add_self r.items epi)
  have hcomp : ∀ b ∈ t.toList, Compares ({ r with items := r.items.add epi }.comp epi)
      (sockfd { r with items := r.items.add epi })
      (sockfd { r with items := r.items.add epi } r.items.next) b := by
    intro b hb
    rcases h.exists_item hb with ⟨x, hx⟩
    rw [hself]
    exact sockfdCmp_compares (ObjList.get?_add_of_get? epi hx)
  have hother : ∀ b ∈ t.toList, sockfd { r with items := r.items.add epi } b
      ≠ sockfd { r with items := r.items.add epi } r.items.next := by
    intro b hb heq
    rw [hkept b hb, hself] at heq
    exact hnew (mem_sockids.mpr ⟨b, hb, heq⟩)
  have hrounds : t.toList.length < { r with items := r.items.add epi }.rounds :=
    Nat.lt_succ_of_lt h.length_lt_rounds
  rcases insert_spec h.tree (h.sorted.congr (fun b hb => hkept b hb _ _)) h.redBlack hcomp hother hrounds
    with ⟨rbr, t', hinsert, htree, hsorted, hbalanced, hperm⟩
  refine ⟨rbr, t', hinsert, fun rbcnt => ⟨⟨htree, hsorted, hbalanced, ?_⟩, ?_⟩⟩
  . exact hperm.trans (h.items.cons r.items.next)
  . exact sockids_cons hperm (fun b hb => hkept b hb _ _) (hself _ _)

/-- An item is taken out of the tree and freed. -/
theorem remove (h : r.Linked t) (ha : a ∈ t.toList)
    : ∃ rbr t', r.rbr.remove a r.rounds = some rbr
        ∧ ∀ rbcnt, Linked { items := r.items.remove a, rbr, rbcnt } t'
          ∧ sockids { items := r.items.remove a, rbr, rbcnt } t' = (r.sockids t).erase (r.sockfd a) := by
  rcases remove_spec h.tree h.redBlack ha h.length_lt_rounds with ⟨rbr, t', hremove, htree, hlist, hbalanced⟩
  have hperm : t.toList.Perm (a :: t'.toList) := by
    rw [hlist]
    exact List.perm_cons_erase ha
  have hkeys := h.nodup_sockfds
  rw [(hperm.map r.sockfd).nodup_iff, List.map_cons, List.nodup_cons] at hkeys
  have hkept : ∀ b ∈ t'.toList, ∀ rbcnt,
      sockfd { items := r.items.remove a, rbr, rbcnt } b = r.sockfd b := by
    intro b hb rbcnt
    have hne : b ≠ a := by
      rintro rfl
      exact hkeys.1 (List.mem_map_of_mem hb)
    rw [sockfd, sockfd, ObjList.get?_remove_of_ne _ hne]
  refine ⟨rbr, t', hremove, fun rbcnt => ⟨⟨htree, ?_, hbalanced, ?_⟩, ?_⟩⟩
  . refine (h.sorted.sublist ?_).congr (fun b hb => hkept b hb rbcnt)
    rw [hlist]
    exact List.erase_sublist
  . rw [ObjList.addrs_remove, hlist]
    exact h.items.erase a
  . rw [sockids_cons hperm (fun b hb => (hkept b hb rbcnt).symm) rfl, Finset.erase_insert]
    rintro hmem
    rcases mem_sockids.mp hmem with ⟨b, hb, heq⟩
    rw [hkept b hb] at heq
    exact hkeys.1 (List.mem_map.mpr ⟨b, hb, heq⟩)

/-- An item is changed, but for its socket. -/
theorem modify {f : Epitem → Epitem} (h : r.Linked t) (hf : ∀ epi, (f epi).sockfd = epi.sockfd)
    : Linked { r with items := r.items.modify a f } t
        ∧ sockids { r with items := r.items.modify a f } t = r.sockids t := by
  have hsame : sockfd { r with items := r.items.modify a f } = r.sockfd := by
    funext b
    rw [sockfd, sockfd, ObjList.get?_modify]
    split
    . cases r.items.get? b with
      | none => rfl
      | some epi => exact hf epi
    . rfl
  refine ⟨⟨h.tree, ?_, h.redBlack, ?_⟩, ?_⟩
  . rw [hsame]
    exact h.sorted
  . rw [ObjList.addrs_modify]
    exact h.items
  . rw [sockids, hsame]
    rfl

end Linked

end Registry

/--
The calls that change the registry. An item that is added lies in memory with old contents.
-/
inductive RegistryCall where
  | add (stale : Epitem) (sockid : Int) (event : EpollEvent)
  | del (sockid : Int) (event : Option EpollEvent)
  | mod (sockid : Int) (event : EpollEvent)

namespace RegistryCall

def run (r : Registry) : RegistryCall → Except RegistryHalt (Int × Registry)
  | add stale sockid event =>
    r.nepollCtl { Env.granting with staleEpitem := stale } epollCtlAdd sockid (some event)
  | del sockid event => r.nepollCtl .granting epollCtlDel sockid event
  | mod sockid event => r.nepollCtl .granting epollCtlMod sockid (some event)

/--
The set of registered sockets after the call.
-/
def after (sockids : Finset Int) : RegistryCall → Finset Int
  | add _ sockid _ => insert sockid sockids
  | del sockid _ => sockids.erase sockid
  | mod _ _ => sockids

/--
The socket is registered already, or it is not registered and the call asks for one that is.
-/
def refused (sockids : Finset Int) : RegistryCall → Prop
  | add _ sockid _ => sockid ∈ sockids
  | del sockid _ => sockid ∉ sockids
  | mod sockid _ => sockid ∉ sockids

/--
The call does not ask for a registered socket to be taken out.
-/
def keeps (sockids : Finset Int) : RegistryCall → Prop
  | del sockid _ => sockid ∉ sockids
  | _ => True

end RegistryCall

def registry : Machine Registry RegistryCall Int RegistryHalt where
  step r call :=
    match call.run r with
    | .error e => .error e
    | .ok (ret, r) => .ok (r, ret)

/--
The sockets that the calls leave registered.
-/
def registered (calls : List RegistryCall) : Finset Int :=
  calls.foldl RegistryCall.after ∅

namespace Registry

/--
The registry is this set of sockets, in a red-black search tree.
-/
structure IsSet (r : Registry) (fds : Finset Int) : Prop where
  tree : ∃ t, r.Linked t
  find : ∀ sockid, ∃ found, r.find sockid = some found ∧ (found.isSome ↔ sockid ∈ fds)
    ∧ ∀ a, found = some a → ∃ epi, r.items.get? a = some epi ∧ epi.sockfd = sockid
  count : r.rbcnt.toInt = fds.card

/--
The tree of the registry has the items of these sockets, and it has counted them.
-/
def Holds (r : Registry) (fds : Finset Int) : Prop :=
  ∃ t, r.Linked t ∧ r.sockids t = fds ∧ r.rbcnt = Int32.ofNat fds.card

variable {r : Registry} {fds : Finset Int} {env : Env} {sockid : Int}

theorem holds_init (rbn : Addr → RbEntry) : (init rbn).Holds ∅ :=
  ⟨.leaf, linked_init rbn, rfl, rfl⟩

theorem toInt_ofNat_iff (n : Nat) : (Int32.ofNat n).toInt = n ↔ n ≤ intMax := by
  have hmax : intMax = 2147483647 := rfl
  constructor
  . intro h
    have hlt := (Int32.ofNat n).toInt_lt
    omega
  . intro h
    exact Int32.toInt_ofNat_of_lt (by omega)

theorem Holds.isSet_iff (h : r.Holds fds) : r.IsSet fds ↔ fds.card ≤ intMax := by
  rcases h with ⟨t, ht, rfl, hcount⟩
  rw [← toInt_ofNat_iff, ← hcount]
  refine ⟨IsSet.count, fun hexact => ⟨⟨t, ht⟩, ?_, hexact⟩⟩
  intro sockid
  rcases ht.find sockid with ⟨found, hfind, hiff, hfound⟩
  refine ⟨found, hfind, hiff, ?_⟩
  intro a ha
  rcases ht.exists_item (hfound a ha).1 with ⟨epi, hepi⟩
  refine ⟨epi, hepi, ?_⟩
  rw [← sockfd_of_get? hepi]
  exact (hfound a ha).2

theorem Holds.find (h : r.Holds fds) (sockid : Int)
    : sockid ∉ fds ∧ r.find sockid = some none
        ∨ sockid ∈ fds ∧ ∃ t a, r.find sockid = some (some a) ∧ r.Linked t ∧ r.sockids t = fds
          ∧ r.rbcnt = Int32.ofNat fds.card ∧ a ∈ t.toList ∧ r.sockfd a = sockid := by
  rcases h with ⟨t, ht, rfl, hcount⟩
  rcases ht.find sockid with ⟨found, hfind, hiff, hfound⟩
  cases found with
  | none =>
    refine .inl ⟨?_, hfind⟩
    rw [← hiff]
    simp
  | some a => exact .inr ⟨hiff.mp rfl, t, a, hfind, ht, rfl, hcount, hfound a rfl⟩

theorem nepollCtl_add {event : EpollEvent} (h : r.Holds fds) (hmalloc : env.rteMalloc 0 = true)
    : ∃ ret r', r.nepollCtl env epollCtlAdd sockid (some event) = .ok (ret, r')
        ∧ r'.Holds (insert sockid fds) ∧ (ret = -1 ↔ sockid ∈ fds) := by
  unfold Registry.nepollCtl
  rcases h.find sockid with ⟨hnew, hfind⟩ | ⟨hmem, t, a, hfind, _⟩
  . rcases h with ⟨t, ht, rfl, hcount⟩
    rcases ht.add { env.staleEpitem with sockfd := sockid, event } hnew with ⟨rbr, t', hinsert, hlinked⟩
    refine ⟨0, _, ?_, ⟨t', (hlinked (r.rbcnt + 1)).1, (hlinked _).2, ?_⟩, by simp [hnew]⟩
    . simp [hfind, hmalloc, hinsert]
    . rw [Finset.card_insert_of_notMem hnew, hcount, Int32.ofNat_add]
      rfl
  . refine ⟨-1, r, ?_, ?_, by simp [hmem]⟩
    . simp [hfind]
    . rw [Finset.insert_eq_of_mem hmem]
      exact h

theorem nepollCtl_del_of_notMem {event : Option EpollEvent} (h : r.Holds fds) (hnew : sockid ∉ fds)
    : r.nepollCtl env epollCtlDel sockid event = .ok (-1, r) := by
  have hadd : epollCtlDel ≠ epollCtlAdd := by decide
  unfold Registry.nepollCtl
  rcases h.find sockid with ⟨_, hfind⟩ | ⟨hmem, _⟩
  . simp [hfind, hadd]
  . contradiction

/-- When the process is aborted the tree is that of the other sockets. -/
theorem nepollCtl_del_of_mem {event : Option EpollEvent} (h : r.Holds fds) (hmem : sockid ∈ fds)
    : ∃ r', r.nepollCtl env epollCtlDel sockid event = .error (.aborted r') ∧ r'.Holds (fds.erase sockid) := by
  have hadd : epollCtlDel ≠ epollCtlAdd := by decide
  unfold Registry.nepollCtl
  rcases h.find sockid with ⟨hnew, _⟩ | ⟨_, t, a, hfind, ht, rfl, hcount, ha, hsockfd⟩
  . contradiction
  . rcases ht.remove ha with ⟨rbr, t', hremove, hlinked⟩
    rw [hsockfd] at hlinked
    refine ⟨_, ?_, t', (hlinked (r.rbcnt - 1)).1, (hlinked _).2, ?_⟩
    . simp [hfind, hadd, hremove]
    . rw [hcount, ← Finset.card_erase_add_one hmem, Int32.ofNat_add]
      exact Int32.add_sub_cancel _ _

theorem nepollCtl_mod {event : EpollEvent} (h : r.Holds fds)
    : ∃ ret r', r.nepollCtl env epollCtlMod sockid (some event) = .ok (ret, r')
        ∧ r'.Holds fds ∧ (ret = -1 ↔ sockid ∉ fds) := by
  have hadd : epollCtlMod ≠ epollCtlAdd := by decide
  have hdel : epollCtlMod ≠ epollCtlDel := by decide
  unfold Registry.nepollCtl
  rcases h.find sockid with ⟨hnew, hfind⟩ | ⟨hmem, t, a, hfind, ht, rfl, hcount, ha, hsockfd⟩
  . exact ⟨-1, r, by simp [hfind, hadd, hdel], h, by simp [hnew]⟩
  . have hmod := ht.modify (a := a)
      (f := fun epi => { epi with event.events := event.events ||| (epollerr ||| epollhup) }) (fun _ => rfl)
    exact ⟨0, _, by simp [hfind, hadd, hdel], ⟨t, hmod.1, hmod.2, hcount⟩, by simp [hmem]⟩

/-- A call that keeps the registered sockets comes back, and it does to the set what it is for. -/
theorem Holds.run {call : RegistryCall} (h : r.Holds fds) (hkeeps : call.keeps fds)
    : ∃ ret r', call.run r = .ok (ret, r') ∧ r'.Holds (call.after fds) ∧ (ret = -1 ↔ call.refused fds) := by
  cases call with
  | add stale sockid event => exact nepollCtl_add h rfl
  | del sockid event =>
    refine ⟨-1, r, nepollCtl_del_of_notMem h hkeeps, ?_, ?_⟩
    . rw [RegistryCall.after, Finset.erase_eq_of_notMem hkeeps]
      exact h
    . exact iff_of_true rfl hkeeps
  | mod sockid event => exact nepollCtl_mod h

/-- Any other call does not come back. -/
theorem Holds.keeps_of_run {call : RegistryCall} {ret : Int} {r' : Registry} (h : r.Holds fds)
    (hrun : call.run r = .ok (ret, r')) : call.keeps fds := by
  cases call with
  | add => trivial
  | mod => trivial
  | del sockid event =>
    intro hmem
    rcases nepollCtl_del_of_mem h hmem with ⟨_, habort, _⟩
    rw [RegistryCall.run, habort] at hrun
    cases hrun

/--
The registry is that of the event poll, which has its items without the tree.
-/
structure Represents (r : Registry) (ep : Eventpoll) : Prop where
  linked : ∃ t, r.Linked t
  items : ep.rbr = r.items
  count : ep.rbcnt = r.rbcnt

/--
What a call leaves of the registry, in a process that is aborted as well.
-/
def left : Except RegistryHalt (Int × Registry) → Option (Int × Registry)
  | .ok (ret, r) => some (ret, r)
  | .error (.aborted r) => some (0, r)
  | .error .wildPointer => none

/-- What the calls do to the items alone is what they do with the tree, as far as they get. -/
theorem Represents.nepollCtl {s : Stack} {ep : Eventpoll} {epfd op : Int} {event : Option EpollEvent}
    (h : r.Represents ep) (hinfo : getHostinfoFromfd s epfd = some (.ep ep))
    : ∃ ret r' ep', left (r.nepollCtl env op sockid event) = some (ret, r')
        ∧ NgStack.nepollCtl env s epfd op sockid event = .ok (ret, s.setEp ep') ∧ r'.Represents ep' := by
  rcases h.linked with ⟨t, ht⟩
  have hep : (Hostinfo.ep ep).asEp = .ok ep := (Hostinfo.asEp_eq_ok_iff _ ep).mpr rfl
  have hsame : s.setEp ep = s := by
    have := (getHostinfoFromfd_ep hinfo).1
    unfold Stack.setEp
    rw [← this]
  have hfind : r.find sockid = some ((ep.find sockid).map Prod.fst) := by
    rw [ht.find_eq, Eventpoll.find, h.items]
  have hkept : ∀ ret : Int, (.ok (ret, s) : Except Halt (Int × Stack)) = .ok (ret, s.setEp ep) :=
    fun ret => by rw [hsame]
  -- Both take the same branches, as the search in the tree finds what the search in the list finds.
  unfold Registry.nepollCtl NgStack.nepollCtl
  rw [hinfo, hfind]
  dsimp only
  rw [hep]
  dsimp only
  by_cases hevent : (event.isNone && op != epollCtlDel) = true
  . rw [if_pos hevent, if_pos hevent]
    exact ⟨-1, r, ep, rfl, hkept _, h⟩
  rw [if_neg hevent, if_neg hevent]
  by_cases hadd : op = epollCtlAdd
  . rw [if_pos hadd, if_pos hadd]
    cases hfound : ep.find sockid with
    | some found => exact ⟨-1, r, ep, rfl, hkept _, h⟩
    | none =>
      dsimp only [Option.map_none]
      cases hmalloc : env.rteMalloc 0 with
      | false => exact ⟨-1, r, ep, rfl, hkept _, h⟩
      | true =>
        have hnew : sockid ∉ r.sockids t := by
          apply ht.notMem_sockids
          rw [← h.items]
          exact hfound
        rcases ht.add { env.staleEpitem with sockfd := sockid, event := event.getD default } hnew
          with ⟨rbr, t', hinsert, hlinked⟩
        rw [if_neg (by simp), if_neg (by simp), hinsert, h.items, h.count]
        exact ⟨0, _, _, rfl, rfl, ⟨t', (hlinked (r.rbcnt + 1)).1⟩, rfl, rfl⟩
  rw [if_neg hadd, if_neg hadd]
  by_cases hdel : op = epollCtlDel
  . rw [if_pos hdel, if_pos hdel]
    rcases hfound : ep.find sockid with _ | ⟨a, epi⟩
    . exact ⟨-1, r, ep, rfl, hkept _, h⟩
    . have hget : r.items.get? a = some epi := by
        rw [← h.items]
        exact ObjList.get?_of_find? hfound
      rcases ht.remove (ht.mem_of_get? hget) with ⟨rbr, t', hremove, hlinked⟩
      dsimp only [Option.map_some]
      rw [hremove, h.items, h.count]
      exact ⟨0, _, _, rfl, rfl, ⟨t', (hlinked (r.rbcnt - 1)).1⟩, rfl, rfl⟩
  rw [if_neg hdel, if_neg hdel]
  by_cases hmod : op = epollCtlMod
  . rw [if_pos hmod, if_pos hmod]
    rcases ep.find sockid with _ | ⟨a, epi⟩
    . exact ⟨-1, r, ep, rfl, hkept _, h⟩
    . dsimp only [Option.map_some]
      rw [h.items]
      have hlinked := ht.modify (a := a) (f := fun epi => { epi with
        event.events := (event.getD default).events ||| (epollerr ||| epollhup) }) (fun _ => rfl)
      exact ⟨0, _, _, rfl, rfl, ⟨t, hlinked.1⟩, rfl, h.count⟩
  . rw [if_neg hmod, if_neg hmod]
    exact ⟨0, r, ep, rfl, hkept _, h⟩

end Registry

theorem registered_append (calls : List RegistryCall) (call : RegistryCall)
    : registered (calls ++ [call]) = call.after (registered calls) := by
  simp [registered]

theorem holds_of_run {rbn : Addr → RbEntry} {tr : List (Edge Registry RegistryCall Int)} {r : Registry}
    (h : registry.Run (.init rbn) tr r) : r.Holds (registered (tr.map Edge.act)) := by
  refine h.history (P := fun tr r => r.Holds (registered (tr.map Edge.act))) (Registry.holds_init rbn) ?_
  intro tr r call ret r' _ hholds hstep
  simp only [registry] at hstep
  split at hstep
  . contradiction
  . next hcall =>
    cases hstep
    rcases hholds.run (hholds.keeps_of_run hcall) with ⟨_, _, hcall', hafter, _⟩
    rw [hcall] at hcall'
    cases hcall'
    rw [List.map_append, List.map_singleton, registered_append]
    exact hafter

theorem registry_step_iff {r : Registry} {fds : Finset Int} {call : RegistryCall} (h : r.Holds fds)
    : (∃ r' ret, registry.step r call = .ok (r', ret)) ↔ call.keeps fds := by
  constructor
  . rintro ⟨r', ret, hstep⟩
    simp only [registry] at hstep
    split at hstep
    . contradiction
    . next hcall => exact h.keeps_of_run hcall
  . intro hkeeps
    rcases h.run hkeeps with ⟨ret, r', hcall, _, _⟩
    exact ⟨r', ret, by simp only [registry, hcall]⟩

theorem registry_step_iff_forall {rbn : Addr → RbEntry} {tr : List (Edge Registry RegistryCall Int)} {r : Registry}
    {call : RegistryCall} (h : registry.Run (.init rbn) tr r)
    : (∃ r' ret, registry.step r call = .ok (r', ret)) ↔ ∀ fds, r.Holds fds → call.keeps fds := by
  constructor
  . intro hstep fds hfds
    exact (registry_step_iff hfds).mp hstep
  . intro hkeeps
    exact (registry_step_iff (holds_of_run h)).mpr (hkeeps _ (holds_of_run h))

theorem refused_iff_of_step {r r' : Registry} {fds : Finset Int} {call : RegistryCall} {ret : Int} (h : r.Holds fds)
    (hstep : registry.step r call = .ok (r', ret)) : ret = -1 ↔ call.refused fds := by
  simp only [registry] at hstep
  split at hstep
  . contradiction
  . next hcall =>
    cases hstep
    rcases h.run (h.keeps_of_run hcall) with ⟨_, _, hcall', _, hret⟩
    rw [hcall] at hcall'
    cases hcall'
    exact hret

/--
Calls run through and leave the set of sockets that they are to leave, each of them returning -1 exactly when it
is refused, if and only if none of them takes a registered socket out and an `int` can count the sockets.
-/
theorem registry_isSet_iff (rbn : Addr → RbEntry) (calls : List RegistryCall)
    : (∃ tr r, registry.Run (.init rbn) tr r ∧ tr.map Edge.act = calls ∧ r.IsSet (registered calls)
        ∧ ∀ tr1 e tr2, tr = tr1 ++ e :: tr2
          → (e.out = -1 ↔ e.act.refused (registered (tr1.map Edge.act))))
      ↔ (∀ calls1 call calls2, calls = calls1 ++ call :: calls2 → call.keeps (registered calls1))
        ∧ (registered calls).card ≤ intMax := by
  -- Where the calls have come to tells which sockets are registered.
  have hthrough := Machine.exists_run_iff_guard (m := registry) (s := .init rbn)
    (C := fun r call => ∀ fds, r.Holds fds → call.keeps fds) (fun hrun => registry_step_iff_forall hrun) calls
  constructor
  . rintro ⟨tr, r, hrun, rfl, hset, _⟩
    refine ⟨?_, (holds_of_run hrun).isSet_iff.mp hset⟩
    intro calls1 call calls2 hcalls
    rw [List.map_eq_append_iff] at hcalls
    rcases hcalls with ⟨tr1, tr2, rfl, rfl, hrest⟩
    rw [List.map_eq_cons_iff] at hrest
    rcases hrest with ⟨e, tr3, rfl, rfl, _⟩
    rcases hrun.at_edge with ⟨hpast, hstep, _⟩
    exact (registry_step_iff (holds_of_run hpast)).mp ⟨_, _, hstep⟩
  . rintro ⟨hkeeps, hcard⟩
    have hguard : ∀ calls1 call calls2, calls = calls1 ++ call :: calls2 → ∀ tr r, registry.Run (.init rbn) tr r
        → tr.map Edge.act = calls1 → ∀ fds, r.Holds fds → call.keeps fds := by
      rintro calls1 call calls2 hcalls tr r hrun rfl fds hfds
      have hstep := (registry_step_iff (holds_of_run hrun)).mpr (hkeeps _ call calls2 hcalls)
      exact (registry_step_iff hfds).mp hstep
    rcases hthrough.mpr hguard with ⟨tr, r, hrun, rfl⟩
    refine ⟨tr, r, hrun, rfl, (holds_of_run hrun).isSet_iff.mpr hcard, ?_⟩
    rintro tr1 e tr2 rfl
    rcases hrun.at_edge with ⟨hpast, hstep, _⟩
    exact refused_iff_of_step (holds_of_run hpast) hstep

/-- A socket is registered and taken out again. -/
theorem not_registry_isSet
    : ¬∃ rbn tr r, registry.Run (.init rbn) tr r
        ∧ tr.map Edge.act = [.add default 3 { events := epollin, fd := 3 }, .del 3 none] := by
  rintro ⟨rbn, tr, r, hrun, hacts⟩
  rw [List.map_eq_cons_iff] at hacts
  rcases hacts with ⟨e1, tr, rfl, hadd, hacts⟩
  rw [List.map_eq_cons_iff] at hacts
  rcases hacts with ⟨e2, tr, rfl, hdel, _⟩
  rcases Machine.Run.at_edge (show registry.Run _ ([e1] ++ e2 :: tr) _ from hrun) with ⟨hpast, hstep, _⟩
  have hkeeps := (registry_step_iff (holds_of_run hpast)).mp ⟨_, _, hstep⟩
  rw [hdel, List.map_singleton, hadd] at hkeeps
  exact hkeeps (by decide)

end NgStack
