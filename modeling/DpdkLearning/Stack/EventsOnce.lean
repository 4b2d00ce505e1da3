import DpdkLearning.Lib.Ledger
import DpdkLearning.Stack.EventMasks
import DpdkLearning.Stack.ReadyList

/-!
This module contains what becomes of the events of an event poll: over any run of the calls that register
sockets, signal them and wait for them, a socket is reported as often as a callback made it ready.
-/

open Lib

namespace NgStack

namespace Stack

/--
The items on the ready list.
-/
def readyItems (s : Stack) : List Epitem :=
  match s.table.ep with
  | none => []
  | some ep => ep.rdlist.filterMap ep.rbr.get?

def ready (s : Stack) (sockid : Int) : Bool :=
  s.table.ep.any (fun ep => (ep.find sockid).any (fun found => found.2.rdy != 0))

end Stack

/--
The call is for the event poll `epfd`. A new item lies in zeroed memory, and a wait has room for an event.
-/
def PollCall.isFor (epfd : Int) : PollCall → Bool
  | .add env fd _ _ => fd == epfd && env.staleEpitem.rdy == 0
  | .mod _ fd _ _ => fd == epfd
  | .signal _ _ => true
  | .wait _ fd maxevents _ => fd == epfd && decide (0 < maxevents)

/--
The socket of a callback that found it registered and not ready.
-/
def raised (e : PollStep) : List Int :=
  match e.act with
  | .signal sockid _ => if e.pre.registered sockid && !e.pre.ready sockid then [sockid] else []
  | _ => []

def reportedSockets (e : PollStep) : List Int :=
  (reported e).map Prod.fst

/--
A wait hands out the first of the ready items, as many as it has room for, and leaves the others as they are.
Each socket that is ready has one item among them. Only a wait that fails returns another count.
-/
structure WaitExact (maxevents : Int) (e : PollStep) : Prop where
  ready : ∀ fd, fd ∈ e.pre.readyItems.map Epitem.sockfd ↔ e.pre.ready fd = true
  distinct : (e.pre.readyItems.map Epitem.sockfd).Nodup
  count : e.out.events.length = min maxevents.toNat e.pre.readyItems.length
  ret : e.out.ret = e.out.events.length ∨ e.out.ret = -1 ∧ e.pre.readyItems = []
  events : e.out.events = (e.pre.readyItems.take e.out.events.length).map Epitem.event
  sockets : reportedSockets e = (e.pre.readyItems.take e.out.events.length).map Epitem.sockfd
  others : e.post.readyItems = e.pre.readyItems.drop e.out.events.length

/--
Over the run the waits are exact, and a socket was reported, or is ready to be, as often as it was raised. The
next call comes back unless it waits without a timeout and no socket is ready.
-/
structure EventsOnce (epfd : Int) (tr : List PollStep) (t : Stack) : Prop where
  exact : ∀ e ∈ tr, ∀ env fd maxevents timeout, e.act = .wait env fd maxevents timeout → WaitExact maxevents e
  once : ∀ fd, (tr.flatMap reportedSockets).count fd + (if t.ready fd then 1 else 0)
    = (tr.flatMap raised).count fd
  returns : ∀ call : PollCall, call.isFor epfd = true → (∃ u o, pollMachine.step t call = .ok (u, o))
    ∨ ∃ env maxevents timeout, call = .wait env epfd maxevents timeout ∧ timeout < 0 ∧ t.readyItems = []

/--
`epfd` is an event poll that has no items yet.
-/
def PollNew (epfd : Int) (s : Stack) : Prop :=
  ∃ ep, getHostinfoFromfd s epfd = some (.ep ep) ∧ (∀ a, ep.rbr.get? a = none)
    ∧ ep.rdlist = [] ∧ ep.rdnum = 0

namespace Eventpoll

/--
The ready list is as it was.
-/
structure ListKept (ep' ep : Eventpoll) : Prop where
  fd : ep'.fd = ep.fd
  rdlist : ep'.rdlist = ep.rdlist
  rdnum : ep'.rdnum = ep.rdnum

/--
The socket of the item.
-/
def sockOf (ep : Eventpoll) (a : Addr) : Option Int :=
  (ep.rbr.get? a).map Epitem.sockfd

variable {ep ep' : Eventpoll} {a : Addr} {epi : Epitem}

theorem sockOf_of_get? (h : ep.rbr.get? a = some epi) : ep.sockOf a = some epi.sockfd := by
  rw [sockOf, h]
  rfl

theorem sockOf_eq_map_entryOf (ep : Eventpoll) (a : Addr) : ep.sockOf a = (ep.entryOf a).map Prod.fst := by
  rw [sockOf, entryOf, Option.map_map]
  rfl

theorem sockOf_modify (f : Epitem → Epitem) (hf : ∀ epi, (f epi).sockfd = epi.sockfd)
    (h' : ep'.rbr = ep.rbr.modify a f) : ep'.sockOf = ep.sockOf := by
  funext b
  rw [sockOf, sockOf, h', ObjList.get?_modify]
  split
  . rw [Option.map_map, show Epitem.sockfd ∘ f = Epitem.sockfd from funext hf]
  . rfl

theorem sockOf_add (h' : ep'.rbr = ep.rbr.add epi)
    : ep'.sockOf = Function.update ep.sockOf ep.rbr.next (some epi.sockfd) := by
  unfold sockOf
  rw [h']
  exact ObjList.map_get?_add Epitem.sockfd

end Eventpoll

/--
`epfd` is an intact event poll in which no socket is registered twice.
-/
structure PollHeld (epfd : Int) (s : Stack) (ep : Eventpoll) : Prop where
  info : getHostinfoFromfd s epfd = some (.ep ep)
  listed : Listed ep.rdy? ep.rdlist ep.rdnum
  single : ∀ a b fd, ep.sockOf a = some fd → ep.sockOf b = some fd → a = b

/--
The event poll is intact after the step too, and what was ready or is raised is reported or stays ready.
-/
structure PollServed (epfd : Int) (e : PollStep) : Prop where
  held : ∃ ep, PollHeld epfd e.post ep
  balance : (e.pre.readySockets ++ raised e).Perm (reportedSockets e ++ e.post.readySockets)

theorem pollHeld_of_pollNew {epfd : Int} {s : Stack} (h : PollNew epfd s) : ∃ ep, PollHeld epfd s ep := by
  rcases h with ⟨ep, hinfo, hnone, hlist, hnum⟩
  have hrdy : ep.rdy? = fun _ => none := by
    funext a
    rw [Eventpoll.rdy?, hnone a]
    rfl
  refine ⟨ep, hinfo, ?_, ?_⟩
  . rw [hrdy, hlist, hnum]
    exact Listed.nil_iff.mpr rfl
  . intro a b fd ha
    rw [Eventpoll.sockOf, hnone a] at ha
    contradiction

namespace PollHeld

variable {epfd : Int} {s : Stack} {ep ep' : Eventpoll}

theorem ep_eq (h : PollHeld epfd s ep) : s.table.ep = some ep :=
  (getHostinfoFromfd_ep h.info).1

theorem readyItems_eq (h : PollHeld epfd s ep) : s.readyItems = ep.rdlist.filterMap ep.rbr.get? := by
  rw [Stack.readyItems, h.ep_eq]

theorem readySockets_eq (h : PollHeld epfd s ep) : s.readySockets = ep.rdlist.filterMap ep.sockOf := by
  rw [Stack.readySockets, h.ep_eq]
  dsimp only
  rw [List.map_filterMap]
  congr
  funext a
  exact (ep.sockOf_eq_map_entryOf a).symm

theorem map_readyItems (h : PollHeld epfd s ep) : s.readyItems.map Epitem.sockfd = s.readySockets := by
  rw [h.readyItems_eq, h.readySockets_eq, List.map_filterMap]
  rfl

theorem isSome_get? (h : PollHeld epfd s ep) {a : Addr} (ha : a ∈ ep.rdlist) : (ep.rbr.get? a).isSome := by
  have := h.listed.present ha
  rwa [Eventpoll.rdy?, Option.isSome_map] at this

theorem nodup_readySockets (h : PollHeld epfd s ep) : s.readySockets.Nodup := by
  rw [h.readySockets_eq]
  exact h.listed.nodup.filterMap (fun a b fd ha hb => h.single a b fd ha hb)

theorem registered_eq (h : PollHeld epfd s ep) (sockid : Int)
    : s.registered sockid = (ep.find sockid).isSome := by
  rw [Stack.registered, h.ep_eq]
  rfl

theorem ready_eq (h : PollHeld epfd s ep) (sockid : Int)
    : s.ready sockid = (ep.find sockid).any (fun found => found.2.rdy != 0) := by
  rw [Stack.ready, h.ep_eq]
  rfl

theorem mem_readySockets_iff (h : PollHeld epfd s ep) (fd : Int)
    : fd ∈ s.readySockets ↔ s.ready fd = true := by
  rw [h.readySockets_eq, h.ready_eq, List.mem_filterMap]
  constructor
  . rintro ⟨a, ha, hfd⟩
    rcases Option.map_eq_some_iff.mp hfd with ⟨epi, hget, rfl⟩
    have hrdy := (h.listed.flag_iff (Eventpoll.rdy?_of_get? hget)).mpr ha
    cases hfind : ep.find epi.sockfd with
    | none =>
      have := (ObjList.find?_eq_none_iff ep.rbr _).mp hfind a epi hget
      simp at this
    | some found =>
      rcases Eventpoll.get?_of_find hfind with ⟨hget', hsock⟩
      have hsame := h.single _ _ _ (Eventpoll.sockOf_of_get? hget') (hsock ▸ hfd)
      rw [hsame, hget] at hget'
      cases hget'
      exact hrdy
  . intro hany
    rw [Option.any_eq_true] at hany
    rcases hany with ⟨⟨a, epi⟩, hfind, hrdy⟩
    rcases Eventpoll.get?_of_find hfind with ⟨hget, rfl⟩
    exact ⟨a, (h.listed.flag_iff (Eventpoll.rdy?_of_get? hget)).mp hrdy, Eventpoll.sockOf_of_get? hget⟩

theorem setEp (h : PollHeld epfd s ep) (hfd : ep'.fd = ep.fd)
    (hlisted : Listed ep'.rdy? ep'.rdlist ep'.rdnum) (hsock : ep'.sockOf = ep.sockOf)
    : PollHeld epfd (s.setEp ep') ep' where
  info := getHostinfoFromfd_setEp h.info hfd
  listed := hlisted
  single := by
    rw [hsock]
    exact h.single

end PollHeld

theorem Popped.sockOf_eq {ep ep' : Eventpoll} {events : List EpollEvent} (h : Popped ep events ep')
    : ep'.sockOf = ep.sockOf := by
  funext a
  rw [ep'.sockOf_eq_map_entryOf, h.entryOf_eq, ep.sockOf_eq_map_entryOf]

theorem Signalled.sockOf_eq {ep ep' : Eventpoll} {sockid : Int} {event : UInt32}
    (h : Signalled ep sockid event ep') : ep'.sockOf = ep.sockOf := by
  cases h with
  | absent => rfl
  | merged =>
    exact Eventpoll.sockOf_modify (fun epi => { epi with event.events := epi.event.events ||| event })
      (fun _ => rfl) rfl
  | ready => exact Eventpoll.sockOf_modify (fun epi => { epi with rdy := 1 }) (fun _ => rfl) rfl

/-- The loop takes the first items off an intact list, hands out their events and leaves the others alone. -/
theorem nepollWaitPop_listed {ep : Eventpoll} {num : Int} {list : List Addr} (hlist : ep.rdlist = list)
    (hl : Listed ep.rdy? list ep.rdnum) (hnum : 0 ≤ num)
    : ∃ ep' events, nepollWaitPop ep num list = .ok (ep', events)
        ∧ events = ((list.take num.toNat).filterMap ep.rbr.get?).map Epitem.event
        ∧ ep'.rdlist = list.drop num.toNat
        ∧ ∀ a ∉ list.take num.toNat, ep'.rbr.get? a = ep.rbr.get? a := by
  -- The loop tests the count for zero before it looks at the list, so the induction is on the list.
  induction list generalizing ep num with
  | nil => exact ⟨ep, [], rfl, by simp, by simp [hlist], fun _ _ => rfl⟩
  | cons a rest ih =>
    unfold nepollWaitPop
    by_cases hzero : num = 0
    . subst hzero
      exact ⟨ep, [], rfl, by simp, by simp [hlist], fun _ _ => rfl⟩
    . rw [if_neg hzero]
      have hpresent : ∀ b ∈ a :: rest, (ep.rbr.get? b).isSome := by
        intro b hb
        have := hl.present hb
        rwa [Eventpoll.rdy?, Option.isSome_map] at this
      rcases Option.isSome_iff_exists.mp (hpresent a List.mem_cons_self) with ⟨epi, hget⟩
      -- Taking the first item off writes into the next one, which is still registered.
      have hnext : rest.head?.all ep.registered = true := by
        cases rest with
        | nil => rfl
        | cons b _ => exact hpresent b (by simp)
      let ep1 : Eventpoll := { ep with
        rbr := ep.rbr.modify a (fun epi => { epi with rdy := 0 })
        rdlist := rest
        rdnum := ep.rdnum - 1 }
      have hl1 : Listed ep1.rdy? rest ep1.rdnum := by
        have hrdy : ep1.rdy? = Function.update ep.rdy? a (some false) :=
          Eventpoll.rdy?_modify (fun epi => { epi with rdy := 0 }) hget rfl
        rw [hrdy]
        exact hl.tail
      have hother : ∀ b ≠ a, ep1.rbr.get? b = ep.rbr.get? b :=
        fun b hb => ObjList.get?_modify_of_ne ep.rbr _ hb
      rcases @ih ep1 (num - 1) rfl hl1 (by omega) with ⟨ep', events, hpop, hevents, hdrop, hsame⟩
      have hsucc : num.toNat = (num - 1).toNat + 1 := by omega
      refine ⟨ep', epi.event :: events, ?_, ?_, ?_, ?_⟩
      . rw [hget]
        dsimp only
        rw [if_pos hnext, hpop]
      -- The items behind the first one are others, since an intact list has none twice.
      . have hmap : (rest.take (num - 1).toNat).filterMap ep1.rbr.get?
            = (rest.take (num - 1).toNat).filterMap ep.rbr.get? := by
          apply List.filterMap_congr
          intro b hb
          apply hother
          rintro rfl
          exact (List.nodup_cons.mp hl.nodup).1 (List.mem_of_mem_take hb)
        rw [hevents, hmap, hsucc, List.take_succ_cons, List.filterMap_cons_some hget, List.map_cons]
      . rw [hdrop, hsucc, List.drop_succ_cons]
      . intro b hb
        rw [hsucc, List.take_succ_cons, List.mem_cons, not_or] at hb
        rw [hsame b hb.2, hother b hb.1]

theorem map_fst_zip_eq_take {α β : Type} (l : List α) (k : List β)
    : (l.zip k).map Prod.fst = l.take k.length := by
  rw [List.zip_eq_zip_take_min, List.map_fst_zip (by simp), List.take_eq_take_iff]
  omega

theorem filterMap_take_drop {α β : Type} {f : α → Option β} {l : List α} (h : ∀ a ∈ l, (f a).isSome) (n : Nat)
    : (l.filterMap f).length = l.length
      ∧ (l.take n).filterMap f = (l.filterMap f).take n
      ∧ (l.drop n).filterMap f = (l.filterMap f).drop n := by
  induction l generalizing n with
  | nil => simp
  | cons a l ih =>
    rcases Option.isSome_iff_exists.mp (h a List.mem_cons_self) with ⟨b, hb⟩
    have hrest := fun n => ih (fun c hc => h c (List.mem_cons_of_mem a hc)) n
    rw [List.filterMap_cons_some hb]
    refine ⟨by rw [List.length_cons, (hrest 0).1, List.length_cons], ?_⟩
    cases n with
    | zero => simp [List.filterMap_cons_some hb]
    | succ n => simp [List.filterMap_cons_some hb, hrest n]

namespace PollHeld

variable {epfd : Int} {s s' : Stack} {ep : Eventpoll} {out : Out}

theorem length_readyItems (h : PollHeld epfd s ep) : s.readyItems.length = ep.rdlist.length := by
  rw [h.readyItems_eq]
  exact (filterMap_take_drop (fun a ha => h.isSome_get? ha) 0).1

/-- A wait finds nothing, or it hands out what it has room for. -/
theorem nepollWait_cases (h : PollHeld epfd s ep) (env : Env) {maxevents : Int} (hmax : 0 < maxevents)
    (timeout : Int)
    : nepollWait env s epfd maxevents timeout = .error .blocked ∧ timeout < 0 ∧ s.readyItems = []
      ∨ nepollWait env s epfd maxevents timeout = .ok (-1, [], s) ∧ s.readyItems = []
      ∨ ∃ ep' events, nepollWait env s epfd maxevents timeout = .ok (events.length, events, s.setEp ep')
          ∧ PollHeld epfd (s.setEp ep') ep'
          ∧ events = (s.readyItems.take (min maxevents.toNat s.readyItems.length)).map Epitem.event
          ∧ (s.setEp ep').readyItems = s.readyItems.drop (min maxevents.toNat s.readyItems.length) := by
  have hcount := h.listed.count_eq
  have hnone (hzero : ep.rdnum = 0) : s.readyItems = [] := by
    rw [← List.length_eq_zero_iff, h.length_readyItems]
    omega
  have hep : (Hostinfo.ep ep).asEp = .ok ep := (Hostinfo.asEp_eq_ok_iff _ ep).mpr rfl
  unfold nepollWait
  rw [h.info]
  dsimp only
  rw [if_neg (by omega), hep]
  dsimp only
  by_cases hblocked : ep.rdnum = 0 ∧ timeout < 0
  . rw [if_pos (by simpa using hblocked)]
    exact .inl ⟨rfl, hblocked.2, hnone hblocked.1⟩
  . rw [if_neg (by simpa using hblocked)]
    by_cases hfailed : (decide (ep.rdnum = 0) && decide (0 < timeout) && !env.pthreadCondTimedwait) = true
    . rw [if_pos hfailed]
      simp only [Bool.and_eq_true, decide_eq_true_eq] at hfailed
      exact .inr (.inl ⟨rfl, hnone hfailed.1.1⟩)
    . rw [if_neg hfailed]
      -- `num` is the lesser of the two bounds as `int`s, neither of which is negative here.
      generalize hnum : (if maxevents < ep.rdnum then maxevents else ep.rdnum) = num
      have hmin : num.toNat = min maxevents.toNat s.readyItems.length := by
        rw [h.length_readyItems, ← hnum]
        split <;> omega
      have hpos : 0 ≤ num := by
        rw [← hnum]
        split <;> omega
      rcases nepollWaitPop_listed rfl h.listed hpos with ⟨ep', events, hpop, hevents, hdrop, hsame⟩
      have hpopped := nepollWaitPop_cases hpop rfl
      have hheld := h.setEp hpopped.fd_eq (hpopped.listed h.listed) hpopped.sockOf_eq
      rcases filterMap_take_drop (fun a ha => h.isSome_get? ha) num.toNat with ⟨_, htake, hrest⟩
      refine .inr (.inr ⟨ep', events, ?_, hheld, ?_, ?_⟩)
      . rw [hpop]
      . rw [hevents, htake, ← h.readyItems_eq, hmin]
      -- The items that stay on the list are apart from those that were taken.
      . rw [hheld.readyItems_eq, hdrop, ← hmin, h.readyItems_eq, ← hrest]
        apply List.filterMap_congr
        intro a ha
        apply hsame
        intro hmem
        have hsplit := h.listed.nodup
        rw [← List.take_append_drop num.toNat ep.rdlist] at hsplit
        exact List.disjoint_of_nodup_append hsplit hmem ha

theorem waitExact (h : PollHeld epfd s ep) {env : Env} {maxevents timeout : Int} (hmax : 0 < maxevents)
    (hstep : pollMachine.step s (.wait env epfd maxevents timeout) = .ok (s', out))
    : WaitExact maxevents ⟨s, .wait env epfd maxevents timeout, out, s'⟩ := by
  have hready (fd : Int) : fd ∈ s.readyItems.map Epitem.sockfd ↔ s.ready fd = true := by
    rw [h.map_readyItems]
    exact h.mem_readySockets_iff fd
  have hdistinct : (s.readyItems.map Epitem.sockfd).Nodup := by
    rw [h.map_readyItems]
    exact h.nodup_readySockets
  have hsockets : reportedSockets ⟨s, .wait env epfd maxevents timeout, out, s'⟩
      = (s.readyItems.map Epitem.sockfd).take out.events.length := by
    rw [reportedSockets, reported, h.map_readyItems]
    dsimp only
    rw [map_fst_zip_eq_take, List.length_map]
  rw [← List.map_take] at hsockets
  rcases map_eq_ok hstep with ⟨⟨r, events, t⟩, hwait, heq⟩
  cases heq
  rcases h.nepollWait_cases env hmax timeout
    with ⟨herr, _⟩ | ⟨hok, hnone⟩ | ⟨ep', events', hok, _, hevents, hrest⟩
  . rw [hwait] at herr
    contradiction
  . rw [hwait] at hok
    cases hok
    exact ⟨hready, hdistinct, by simp [hnone], .inr ⟨rfl, hnone⟩, by simp, hsockets, by simp⟩
  . rw [hwait] at hok
    cases hok
    have hcount : events.length = min maxevents.toNat s.readyItems.length := by
      rw [hevents, List.length_map, List.length_take]
      omega
    exact ⟨hready, hdistinct, hcount, .inl rfl, hcount ▸ hevents, hsockets, hcount ▸ hrest⟩

theorem readySockets_congr {s' : Stack} {ep' : Eventpoll} (h : PollHeld epfd s ep) (h' : PollHeld epfd s' ep')
    (hlist : ep'.rdlist = ep.rdlist) (hsock : ∀ a ∈ ep.rdlist, ep'.sockOf a = ep.sockOf a)
    : s'.readySockets = s.readySockets := by
  rw [h.readySockets_eq, h'.readySockets_eq, hlist]
  exact List.filterMap_congr hsock

theorem served {call : PollCall} {s' : Stack} {ep' : Eventpoll} (h : PollHeld epfd s' ep')
    (hevents : out.events = [])
    (hready : s'.readySockets = raised ⟨s, call, out, s'⟩ ++ s.readySockets)
    : PollServed epfd ⟨s, call, out, s'⟩ where
  held := ⟨ep', h⟩
  balance := by
    rw [reportedSockets, reported_eq_nil hevents, hready]
    exact List.perm_append_comm

theorem add (h : PollHeld epfd s ep) (ep' : Eventpoll) {sockid : Int} {epi : Epitem}
    (hfind : ep.find sockid = none) (hsockfd : epi.sockfd = sockid) (hrdy : epi.rdy = 0)
    (hrbr : ep'.rbr = ep.rbr.add epi) (hkept : ep'.ListKept ep)
    : PollHeld epfd (s.setEp ep') ep' ∧ (s.setEp ep').readySockets = s.readySockets := by
  have hsock := Eventpoll.sockOf_add hrbr
  have hmark := Eventpoll.rdy?_add hrbr
  have hnew : ep.rdy? ep.rbr.next = none := by
    rw [Eventpoll.rdy?, ObjList.get?_next]
    rfl
  have hnot : ∀ b, ep.sockOf b ≠ some sockid := by
    intro b hb
    rcases Option.map_eq_some_iff.mp hb with ⟨epi', hget, heq⟩
    have := (ObjList.find?_eq_none_iff ep.rbr _).mp hfind b epi' hget
    simp [heq] at this
  have hheld : PollHeld epfd (s.setEp ep') ep' := by
    refine ⟨getHostinfoFromfd_setEp h.info hkept.fd, ?_, ?_⟩
    . rw [hmark, hkept.rdlist, hkept.rdnum]
      exact (h.listed.add_iff hnew).mpr (by simp [hrdy])
    -- Two items for one socket would be the new one and an old one, but the search has found none.
    . intro a b fd ha hb
      rw [hsock, hsockfd] at ha hb
      by_cases hanext : a = ep.rbr.next
      . by_cases hbnext : b = ep.rbr.next
        . rw [hanext, hbnext]
        . rw [hanext, Function.update_self] at ha
          rw [Function.update_of_ne hbnext, ← ha] at hb
          exact absurd hb (hnot b)
      . rw [Function.update_of_ne hanext] at ha
        by_cases hbnext : b = ep.rbr.next
        . rw [hbnext, Function.update_self] at hb
          rw [← hb] at ha
          exact absurd ha (hnot a)
        . rw [Function.update_of_ne hbnext] at hb
          exact h.single a b fd ha hb
  refine ⟨hheld, h.readySockets_congr hheld hkept.rdlist ?_⟩
  intro a ha
  rw [hsock]
  apply Function.update_of_ne
  rintro rfl
  have := h.isSome_get? ha
  rw [ObjList.get?_next] at this
  contradiction

theorem mask (h : PollHeld epfd s ep) (ep' : Eventpoll) {a : Addr} {epi : Epitem} {events : UInt32}
    (hget : ep.rbr.get? a = some epi)
    (hrbr : ep'.rbr = ep.rbr.modify a (fun epi => { epi with event.events := events }))
    (hkept : ep'.ListKept ep)
    : PollHeld epfd (s.setEp ep') ep' ∧ (s.setEp ep').readySockets = s.readySockets := by
  have hsock := Eventpoll.sockOf_modify (fun epi => { epi with event.events := events }) (fun _ => rfl) hrbr
  have hrdy := Eventpoll.rdy?_modify (fun epi => { epi with event.events := events }) hget hrbr
  dsimp only at hrdy
  rw [← Eventpoll.rdy?_of_get? hget, Function.update_eq_self] at hrdy
  have hheld : PollHeld epfd (s.setEp ep') ep' := by
    refine h.setEp hkept.fd ?_ hsock
    rw [hrdy, hkept.rdlist, hkept.rdnum]
    exact h.listed
  exact ⟨hheld, h.readySockets_congr hheld hkept.rdlist (fun a _ => congrFun hsock a)⟩

theorem signalled (h : PollHeld epfd s ep) {ep' : Eventpoll} {sockid : Int} {event : UInt32}
    (hsig : Signalled ep sockid event ep')
    : PollHeld epfd (s.setEp ep') ep'
      ∧ (s.setEp ep').readySockets
        = raised ⟨s, .signal sockid event, out, s.setEp ep'⟩ ++ s.readySockets := by
  have hsock := hsig.sockOf_eq
  have hheld := h.setEp hsig.fd_eq (hsig.listed h.listed) hsock
  refine ⟨hheld, ?_⟩
  rw [raised]
  dsimp only
  rw [h.registered_eq, h.ready_eq]
  cases hsig with
  | absent hfind =>
    rw [h.readySockets_congr hheld rfl (fun _ _ => rfl), hfind]
    rfl
  | @merged a epi hfind hrdy =>
    rw [h.readySockets_congr hheld rfl (fun a _ => congrFun hsock a), hfind]
    simp [hrdy]
  | @ready a epi hfind hrdy =>
    have hget := Eventpoll.get?_of_find hfind
    rw [hheld.readySockets_eq, hsock, h.readySockets_eq,
      List.filterMap_cons_some (Eventpoll.sockOf_of_get? hget.1), hget.2, hfind]
    simp [hrdy]

/-- What was ready or is raised is reported or stays ready. -/
theorem step (h : PollHeld epfd s ep) {call : PollCall} (hfor : call.isFor epfd = true)
    (hstep : pollMachine.step s call = .ok (s', out)) : PollServed epfd ⟨s, call, out, s'⟩ := by
  cases call with
  | add env fd sockid event =>
    simp only [PollCall.isFor, Bool.and_eq_true, beq_iff_eq] at hfor
    rcases hfor with ⟨rfl, hzero⟩
    rcases map_eq_ok hstep with ⟨⟨r, t⟩, hcall, heq⟩
    cases heq
    rcases nepollCtl_add_cases hcall with ⟨_, rfl⟩ | ⟨_, ep1, hep, hfind, rfl⟩
    . exact h.served rfl rfl
    . cases h.ep_eq.symm.trans hep
      let epi : Epitem := { env.staleEpitem with sockfd := sockid, event := event.getD default }
      let ep' : Eventpoll := { ep with rbr := ep.rbr.add epi, rbcnt := ep.rbcnt + 1 }
      rcases h.add ep' hfind (show epi.sockfd = sockid from rfl) hzero rfl ⟨rfl, rfl, rfl⟩
        with ⟨hheld, hsame⟩
      exact hheld.served rfl hsame
  | mod env fd sockid event =>
    simp only [PollCall.isFor, beq_iff_eq] at hfor
    subst hfor
    rcases map_eq_ok hstep with ⟨⟨r, t⟩, hcall, heq⟩
    cases heq
    rcases nepollCtl_mod_cases hcall with ⟨_, rfl⟩ | ⟨_, ep1, a, epi, hep, hfind, rfl⟩
    . exact h.served rfl rfl
    . cases h.ep_eq.symm.trans hep
      let ep' : Eventpoll := { ep with rbr := ep.rbr.modify a (fun epi => { epi with
        event.events := (event.getD default).events ||| (epollerr ||| epollhup) }) }
      rcases h.mask ep' (Eventpoll.get?_of_find hfind).1 rfl ⟨rfl, rfl, rfl⟩ with ⟨hheld, hsame⟩
      exact hheld.served rfl hsame
  | signal sockid event =>
    rcases map_eq_ok hstep with ⟨⟨r, ep'⟩, hcall, heq⟩
    cases heq
    rcases epollEventCallback_cases hcall with ⟨e, he, hsig⟩
    cases h.ep_eq.symm.trans he
    rcases h.signalled hsig with ⟨hheld, hready⟩
    exact hheld.served rfl hready
  | wait env fd maxevents timeout =>
    simp only [PollCall.isFor, Bool.and_eq_true, beq_iff_eq, decide_eq_true_eq] at hfor
    rcases hfor with ⟨rfl, hmax⟩
    have hexact := h.waitExact hmax hstep
    rcases map_eq_ok hstep with ⟨⟨r, events, t⟩, hwait, heq⟩
    cases heq
    have hheld : ∃ ep', PollHeld fd s' ep' := by
      rcases h.nepollWait_cases env hmax timeout with ⟨herr, _⟩ | ⟨hok, _⟩ | ⟨ep', events', hok, hheld, _⟩
      . rw [hwait] at herr
        contradiction
      . cases hwait.symm.trans hok
        exact ⟨ep, h⟩
      . cases hwait.symm.trans hok
        exact ⟨ep', hheld⟩
    rcases hheld with ⟨ep', hheld⟩
    refine ⟨⟨ep', hheld⟩, ?_⟩
    rw [hexact.sockets, ← h.map_readyItems, ← hheld.map_readyItems, hexact.others, ← List.map_append,
      List.take_append_drop, raised, List.append_nil]

theorem epollEventCallback_returns (h : PollHeld epfd s ep) (sockid : Int) (event : UInt32)
    : ∃ r ep', epollEventCallback s.table.ep sockid event = .ok (r, ep') := by
  have hhead : ep.rdlist.head?.all ep.registered = true := by
    cases hlist : ep.rdlist with
    | nil => rfl
    | cons a rest => exact h.isSome_get? (by simp [hlist])
  simp only [epollEventCallback, h.ep_eq, hhead, ↓reduceIte]
  repeat' split
  all_goals exact ⟨_, _, rfl⟩

theorem nepollCtl_returns (h : PollHeld epfd s ep) (env : Env) (op sockid : Int) (event : Option EpollEvent)
    : ∃ r s', nepollCtl env s epfd op sockid event = .ok (r, s') := by
  have hep : (Hostinfo.ep ep).asEp = .ok ep := (Hostinfo.asEp_eq_ok_iff _ ep).mpr rfl
  simp only [nepollCtl, h.info, hep]
  repeat' split
  all_goals exact ⟨_, _, rfl⟩

theorem returns (h : PollHeld epfd s ep) {call : PollCall} (hfor : call.isFor epfd = true)
    : (∃ u o, pollMachine.step s call = .ok (u, o))
      ∨ ∃ env maxevents timeout, call = .wait env epfd maxevents timeout ∧ timeout < 0
        ∧ s.readyItems = [] := by
  have hok {α : Type} {x : Except Halt α} {a : α} (f : α → Stack × Out) (hx : x = .ok a)
      : ∃ u o, x.map f = .ok (u, o) := by
    rw [hx]
    exact ⟨_, _, rfl⟩
  cases call with
  | add env fd sockid event =>
    simp only [PollCall.isFor, Bool.and_eq_true, beq_iff_eq] at hfor
    rcases hfor with ⟨rfl, _⟩
    rcases h.nepollCtl_returns env epollCtlAdd sockid event with ⟨r, s', hcall⟩
    exact .inl (hok _ hcall)
  | mod env fd sockid event =>
    simp only [PollCall.isFor, beq_iff_eq] at hfor
    subst hfor
    rcases h.nepollCtl_returns env epollCtlMod sockid event with ⟨r, s', hcall⟩
    exact .inl (hok _ hcall)
  | signal sockid event =>
    rcases h.epollEventCallback_returns sockid event with ⟨r, ep', hcall⟩
    exact .inl (hok _ hcall)
  | wait env fd maxevents timeout =>
    simp only [PollCall.isFor, Bool.and_eq_true, beq_iff_eq, decide_eq_true_eq] at hfor
    rcases hfor with ⟨rfl, hmax⟩
    rcases h.nepollWait_cases env hmax timeout with ⟨_, hneg, hnone⟩ | ⟨hwait, _⟩ | ⟨_, _, hwait, _⟩
    . exact .inr ⟨env, maxevents, timeout, rfl, hneg, hnone⟩
    . exact .inl (hok _ hwait)
    . exact .inl (hok _ hwait)

end PollHeld

section

variable {epfd : Int} {s t : Stack} {tr : List PollStep}

theorem pollHeld_of_run (h : PollRun s tr t) (hnew : PollNew epfd s)
    (hfor : ∀ e ∈ tr, e.act.isFor epfd = true) : ∃ ep, PollHeld epfd t ep := by
  refine h.invariant_of_guard (I := fun t => ∃ ep, PollHeld epfd t ep)
    (C := fun _ call => call.isFor epfd = true) (pollHeld_of_pollNew hnew) hfor ?_
  rintro t call out u ⟨ep, hep⟩ hcall hstep
  exact (hep.step hcall hstep).held

theorem pollHeld_of_mem (h : PollRun s tr t) (hnew : PollNew epfd s)
    (hfor : ∀ e ∈ tr, e.act.isFor epfd = true) {e : PollStep} (he : e ∈ tr)
    : ∃ ep, PollHeld epfd e.pre ep := by
  rcases List.append_of_mem he with ⟨tr1, tr2, rfl⟩
  exact pollHeld_of_run h.at_edge.1 hnew (fun e he => hfor e (List.mem_append_left _ he))

/-- What was raised over a run was reported or is ready. -/
theorem raised_perm (h : PollRun s tr t) (hnew : PollNew epfd s) (hfor : ∀ e ∈ tr, e.act.isFor epfd = true)
    : (tr.flatMap raised).Perm (tr.flatMap reportedSockets ++ t.readySockets) := by
  have hempty : s.readySockets = [] := by
    rcases hnew with ⟨ep, hinfo, _, hlist, _⟩
    rw [Stack.readySockets, (getHostinfoFromfd_ep hinfo).1]
    dsimp only
    rw [hlist]
    rfl
  rw [← List.nil_append (tr.flatMap raised), ← hempty]
  apply h.ledger
  intro e he
  rcases pollHeld_of_mem h hnew hfor he with ⟨ep, hep⟩
  exact (hep.step (hfor e he) (h.step_of_mem he)).balance

/--
Every event is reported once: the waits of a run hand out what is ready, and over the run a socket is reported
as often as it was raised, but for once where it is still ready.
-/
theorem eventsOnce (h : PollRun s tr t) (hnew : PollNew epfd s) (hfor : ∀ e ∈ tr, e.act.isFor epfd = true)
    : EventsOnce epfd tr t := by
  rcases pollHeld_of_run h hnew hfor with ⟨ep, hheld⟩
  constructor
  . intro e he env fd maxevents timeout hact
    have hstep := h.step_of_mem he
    have hcall := hfor e he
    rcases pollHeld_of_mem h hnew hfor he with ⟨ep', hep'⟩
    rcases e with ⟨pre, act, out, post⟩
    cases hact
    simp only [PollCall.isFor, Bool.and_eq_true, beq_iff_eq, decide_eq_true_eq] at hcall
    rcases hcall with ⟨rfl, hmax⟩
    exact hep'.waitExact hmax hstep
  . intro fd
    rw [(raised_perm h hnew hfor).count_eq fd, List.count_append, hheld.nodup_readySockets.count]
    simp only [hheld.mem_readySockets_iff]
  . intro call hcall
    exact hheld.returns hcall

theorem pollNew_of_nepollCreate {env : Env} {size : Int} (h : nepollCreate env s size = .ok (epfd, t))
    (hret : 0 ≤ epfd) (hzero : env.staleEventpoll.rdnum = 0)
    (hhost : s.lhost.find? (fun host => epfd == host.fd) = none)
    (hstream : s.table.tcbSet.find? (fun stream => epfd == stream.fd) = none) : PollNew epfd t := by
  cases nepollCreate_cases h with
  | refused => contradiction
  | noMemory => contradiction
  | installed =>
    let ep : Eventpoll := { env.staleEventpoll with
      fd := (getFdFrombitmap s.fdTable).1
      rbcnt := 0
      rbr := .empty
      rdlist := [] }
    refine ⟨ep, ?_, ObjList.get?_empty, rfl, hzero⟩
    rw [getHostinfoFromfd]
    dsimp only
    rw [hhost, hstream]
    simp [ep]

end

theorem pollNew_pollCreated : PollNew 3 pollCreated :=
  pollNew_of_nepollCreate (show nepollCreate .granting .init 1 = .ok (3, pollCreated) from rfl) (by decide)
    rfl rfl rfl

/-- Three sockets are signalled, one of them twice, and two waits with room for two events take them all. -/
theorem eventsOnce_two
    : ∃ tr t, PollRun pollCreated tr t
        ∧ tr.map (fun e => (e.out.ret, raised e, reportedSockets e))
          = [(0, [], []), (0, [], []), (0, [], []), (0, [7], []), (0, [8], []), (1, [], []), (0, [9], []),
            (2, [], [9, 8]), (0, [9], []), (2, [], [9, 7])]
        ∧ EventsOnce 3 tr t := by
  have hcheck : pollMachine.check pollCreated
      [.add .granting 3 7 (some { events := epollin, fd := 7 }),
        .add .granting 3 8 (some { events := epollin, fd := 8 }),
        .add .granting 3 9 (some { events := epollin, fd := 9 }),
        .signal 7 epollin, .signal 8 epollin, .signal 7 epollin, .signal 9 epollin, .wait .granting 3 2 5,
        .signal 9 epollin, .wait .granting 3 2 5]
      (fun tr _ => tr.map (fun e => (e.out.ret, raised e, reportedSockets e))
          == [(0, [], []), (0, [], []), (0, [], []), (0, [7], []), (0, [8], []), (1, [], []), (0, [9], []),
            (2, [], [9, 8]), (0, [9], []), (2, [], [9, 7])]
        && tr.all (fun e => e.act.isFor 3)) = true := by
    decide +kernel
  rcases Machine.exists_run_of_check hcheck with ⟨tr, t, hrun, _, htest⟩
  rw [Bool.and_eq_true, beq_iff_eq, List.all_eq_true] at htest
  exact ⟨tr, t, hrun, htest.1, eventsOnce hrun pollNew_pollCreated htest.2⟩

end NgStack
