import DpdkLearning.Stack.Lemmas.System

/-!
This module contains the event masks of the event poll: what a wait reports of a socket against the
masks that were signalled for it and the mask it is registered with, over any run of the calls that
register sockets, signal them and wait for them.
-/

open Lib

namespace NgStack

/--
The calls that register sockets, signal them and wait for them.
-/
inductive PollCall where
  | add (env : Env) (epfd sockid : Int) (event : Option EpollEvent)
  | mod (env : Env) (epfd sockid : Int) (event : Option EpollEvent)
  | signal (sockid : Int) (event : UInt32)
  | wait (env : Env) (epfd maxevents timeout : Int)

def PollCall.act : PollCall → Act
  | .add env epfd sockid event => .nepollCtl env epfd epollCtlAdd sockid event
  | .mod env epfd sockid event => .nepollCtl env epfd epollCtlMod sockid event
  | .signal sockid event => .epollEventCallback sockid event
  | .wait env epfd maxevents timeout => .nepollWait env epfd maxevents timeout

/--
The call says itself which events the application wants to hear of.
-/
def PollCall.registers : PollCall → Bool
  | .add _ _ _ _ => true
  | .mod _ _ _ _ => true
  | _ => false

def pollMachine : Machine Stack PollCall Out Halt where
  step s call := machine.step s call.act

abbrev PollStep := Edge Stack PollCall Out

abbrev PollRun := Machine.Run pollMachine

namespace Eventpoll

/--
The socket of the item and the mask it is registered with.
-/
def entryOf (ep : Eventpoll) (a : Addr) : Option (Int × UInt32) :=
  (ep.rbr.get? a).map (fun epi => (epi.sockfd, epi.event.events))

end Eventpoll

namespace Stack

def entryOf (s : Stack) (a : Addr) : Option (Int × UInt32) :=
  s.table.ep.bind (fun ep => ep.entryOf a)

def registered (s : Stack) (sockid : Int) : Bool :=
  s.table.ep.any (fun ep => (ep.find sockid).isSome)

/--
The sockets on the ready list.
-/
def readySockets (s : Stack) : List Int :=
  match s.table.ep with
  | none => []
  | some ep => (ep.rdlist.filterMap ep.entryOf).map Prod.fst

end Stack

/--
The sockets that the step reports, each with the events it reports for it. They come off the ready list in
its order.
-/
def reported (e : PollStep) : List (Int × UInt32) :=
  e.pre.readySockets.zip (e.out.events.map EpollEvent.events)

/--
What the calls so far have asked for: the mask each socket is registered with, and the union of the masks
signalled for it since it was last reported.
-/
structure Masks where
  interest : Int → UInt32
  pending : Int → UInt32

namespace Masks

def none : Masks where
  interest := fun _ => 0
  pending := fun _ => 0

def register (m : Masks) (sockid : Int) (event : Option EpollEvent) : Masks :=
  { m with interest := Function.update m.interest sockid (event.getD default).events }

/--
An `nepoll_ctl` that returns -1 and a callback for a socket that is not registered ask for nothing.
-/
def after (m : Masks) (e : PollStep) : Masks :=
  match e.act with
  | .add _ _ sockid event => if e.out.ret = 0 then m.register sockid event else m
  | .mod _ _ sockid event => if e.out.ret = 0 then m.register sockid event else m
  | .signal sockid event =>
    if e.pre.registered sockid then
      { m with pending := Function.update m.pending sockid (m.pending sockid ||| event) }
    else
      m
  | .wait _ _ _ _ =>
    { m with pending := fun sockfd =>
        if sockfd ∈ (reported e).map Prod.fst then 0 else m.pending sockfd }

/--
What a wait is to report of the socket.
-/
def due (m : Masks) (sockfd : Int) : UInt32 :=
  m.pending sockfd &&& (m.interest sockfd ||| (epollerr ||| epollhup))

end Masks

def masksOf (tr : List PollStep) : Masks :=
  tr.foldl Masks.after .none

/--
The step reports what is due, and only a call that registers a socket changes what one is registered
with.
-/
structure MasksKept (m : Masks) (e : PollStep) : Prop where
  reported : ∀ r ∈ reported e, r.2 = m.due r.1
  registered : e.act.registers = false → ∀ a, e.post.entryOf a = e.pre.entryOf a

/--
The mask `x` has no bit that `y` has not.
-/
def maskWithin (x y : UInt32) : Bool :=
  x &&& y == x

/--
The first `num` items of the ready list, or all of them when the count never comes down to zero.
-/
def poppedItems (num : Int) (list : List Addr) : List Addr :=
  if num < 0 then list else list.take num.toNat

/--
The sockets that a wait takes off the ready list, each with the mask it is registered with.
-/
def takenEntries (s : Stack) (epfd maxevents : Int) : List (Int × UInt32) :=
  match getHostinfoFromfd s epfd with
  | some (.ep ep) =>
    if maxevents ≤ 0 then
      []
    else
      (poppedItems (if maxevents < ep.rdnum then maxevents else ep.rdnum) ep.rdlist).filterMap ep.entryOf
  | _ => []

/--
A callback for a socket whose item has `rdy` set brings no bit the socket is not registered with. When a wait
takes a socket, all bits it is registered with have been signalled since it was last reported, and of
`EPOLLERR` and `EPOLLHUP` only those it is registered with.
-/
def maskCond (m : Masks) (e : PollStep) : Bool :=
  match e.act with
  | .signal sockid event =>
    match e.pre.table.ep with
    | some ep => (ep.find sockid).all (fun found =>
        found.2.rdy == 0 || maskWithin event found.2.event.events)
    | none => true
  | .wait _ epfd maxevents _ =>
    (takenEntries e.pre epfd maxevents).all (fun r =>
      maskWithin r.2 (m.pending r.1) && maskWithin (m.pending r.1 &&& (epollerr ||| epollhup)) r.2)
  | _ => true

/--
No socket is registered yet, as after `nepoll_create`.
-/
def NoneRegistered (s : Stack) : Prop :=
  ∀ ep, s.table.ep = some ep → (∀ a, ep.rbr.get? a = none) ∧ ep.rdlist = []

theorem eq_and_or_iff (s p e : UInt32)
    : s = p &&& (s ||| e) ↔ s &&& p = s ∧ (p &&& e) &&& s = p &&& e := by
  simp only [← UInt32.toBitVec_inj, UInt32.toBitVec_and, UInt32.toBitVec_or,
    BitVec.eq_of_getLsbD_eq_iff, BitVec.getLsbD_and, BitVec.getLsbD_or, ← forall_and]
  apply forall_congr'
  intro i
  cases s.toBitVec.getLsbD i <;> cases p.toBitVec.getLsbD i <;> simp

theorem or_eq_left_iff (s x : UInt32) : s ||| x = s ↔ x &&& s = x := by
  simp only [← UInt32.toBitVec_inj, UInt32.toBitVec_and, UInt32.toBitVec_or,
    BitVec.eq_of_getLsbD_eq_iff, BitVec.getLsbD_and, BitVec.getLsbD_or]
  apply forall_congr'
  intro i
  cases s.toBitVec.getLsbD i <;> cases x.toBitVec.getLsbD i <;> simp

theorem masksOf_append (tr : List PollStep) (e : PollStep)
    : masksOf (tr ++ [e]) = (masksOf tr).after e := by
  rw [masksOf, List.foldl_append]
  rfl

namespace Eventpoll

variable {ep ep' : Eventpoll} {a : Addr} {epi : Epitem}

theorem entryOf_of_get? (h : ep.rbr.get? a = some epi)
    : ep.entryOf a = some (epi.sockfd, epi.event.events) := by
  rw [entryOf, h]
  rfl

theorem entryOf_modify (f : Epitem → Epitem) (h : ep.rbr.get? a = some epi)
    (h' : ep'.rbr = ep.rbr.modify a f)
    : ep'.entryOf = Function.update ep.entryOf a (some ((f epi).sockfd, (f epi).event.events)) := by
  unfold entryOf
  rw [h']
  exact ObjList.map_get?_modify (fun epi : Epitem => (epi.sockfd, epi.event.events)) f h

theorem entryOf_add (h' : ep'.rbr = ep.rbr.add epi)
    : ep'.entryOf = Function.update ep.entryOf ep.rbr.next (some (epi.sockfd, epi.event.events)) := by
  unfold entryOf
  rw [h']
  exact ObjList.map_get?_add (fun epi : Epitem => (epi.sockfd, epi.event.events))

theorem entryOf_mark (rdy : Int) (h : ep.rbr.get? a = some epi)
    (h' : ep'.rbr = ep.rbr.modify a (fun epi => { epi with rdy })) : ep'.entryOf = ep.entryOf := by
  rw [entryOf_modify _ h h', ← entryOf_of_get? h, Function.update_eq_self]

end Eventpoll

theorem Popped.entryOf_eq {ep ep' : Eventpoll} {events : List EpollEvent} (h : Popped ep events ep')
    : ep'.entryOf = ep.entryOf := by
  induction h with
  | done => rfl
  | item _ hget _ ih =>
    rw [ih]
    exact Eventpoll.entryOf_mark 0 hget rfl

theorem poppedItems_cons {num : Int} (a : Addr) (rest : List Addr) (h : num ≠ 0)
    : poppedItems num (a :: rest) = a :: poppedItems (num - 1) rest := by
  unfold poppedItems
  by_cases hneg : num < 0
  . rw [if_pos hneg, if_pos (by omega)]
  . have : num.toNat = (num - 1).toNat + 1 := by omega
    rw [if_neg hneg, if_neg (by omega), this]
    rfl

theorem nepollWaitPop_entries {ep ep' : Eventpoll} {num : Int} {list : List Addr}
    {events : List EpollEvent} (h : nepollWaitPop ep num list = .ok (ep', events))
    : events.map EpollEvent.events = ((poppedItems num list).filterMap ep.entryOf).map Prod.snd := by
  induction list generalizing ep ep' num events with
  | nil =>
    simp only [nepollWaitPop, Except.ok.injEq, Prod.mk.injEq] at h
    rcases h with ⟨_, rfl⟩
    simp [poppedItems]
  | cons a rest ih =>
    unfold nepollWaitPop at h
    split at h
    . next hnum =>
      simp only [Except.ok.injEq, Prod.mk.injEq] at h
      rcases h with ⟨_, rfl⟩
      simp [poppedItems, hnum]
    . next hnum =>
      split at h
      . contradiction
      . next epi hget =>
        split at h
        . dsimp at h
          split at h
          . contradiction
          . next hrest =>
            simp only [Except.ok.injEq, Prod.mk.injEq] at h
            rcases h with ⟨_, rfl⟩
            -- The mark that is cleared is no part of what an item is registered with.
            have hmark : Eventpoll.entryOf { ep with
                rbr := ep.rbr.modify a (fun epi => { epi with rdy := 0 })
                rdlist := rest
                rdnum := ep.rdnum - 1 } = ep.entryOf := Eventpoll.entryOf_mark 0 hget rfl
            rw [List.map_cons, ih hrest, hmark, poppedItems_cons a rest hnum,
              List.filterMap_cons_some (Eventpoll.entryOf_of_get? hget), List.map_cons]
        . contradiction

theorem nepollWait_entries {env : Env} {s s' : Stack} {epfd maxevents timeout r : Int}
    {events : List EpollEvent} (h : nepollWait env s epfd maxevents timeout = .ok (r, events, s'))
    : events.map EpollEvent.events = (takenEntries s epfd maxevents).map Prod.snd := by
  unfold nepollWait at h
  unfold takenEntries
  split at h
  . next hinfo =>
    simp only [Except.ok.injEq, Prod.mk.injEq] at h
    rw [hinfo, ← h.2.1]
    rfl
  . next i hinfo =>
    split at h
    . next hmax =>
      simp only [Except.ok.injEq, Prod.mk.injEq] at h
      rw [← h.2.1, hinfo]
      cases i <;> simp [hmax]
    . next hmax =>
      split at h
      . contradiction
      . next ep hep =>
        rw [Hostinfo.asEp_eq_ok_iff] at hep
        rcases hep with ⟨rfl, _⟩
        rw [hinfo]
        dsimp only
        rw [if_neg hmax]
        split at h
        . contradiction
        . split at h
          . next hnone =>
            simp only [Except.ok.injEq, Prod.mk.injEq] at h
            simp only [Bool.and_eq_true, decide_eq_true_eq] at hnone
            rw [← h.2.1, hnone.1.1, if_neg (by omega)]
            simp [poppedItems]
          . dsimp at h
            split at h
            . contradiction
            . next ep' events' hpop =>
              simp only [Except.ok.injEq, Prod.mk.injEq] at h
              rw [← h.2.1]
              exact nepollWaitPop_entries hpop

theorem poppedItems_initial (num : Int) (list : List Addr) : poppedItems num list <+: list := by
  unfold poppedItems
  split
  . exact List.prefix_refl list
  . exact List.take_prefix _ list

theorem takenEntries_initial (s : Stack) (epfd maxevents : Int)
    : (takenEntries s epfd maxevents).map Prod.fst <+: s.readySockets := by
  unfold takenEntries
  split
  . next ep hinfo =>
    rw [Stack.readySockets, (getHostinfoFromfd_ep hinfo).1]
    split
    . exact List.nil_prefix
    . exact ((poppedItems_initial _ ep.rdlist).filterMap ep.entryOf).map Prod.fst
  . exact List.nil_prefix

theorem zip_of_map_initial {α β : Type} {l : List (α × β)} {xs : List α} (h : l.map Prod.fst <+: xs)
    : xs.zip (l.map Prod.snd) = l := by
  rcases h with ⟨rest, rfl⟩
  rw [← List.append_nil (l.map Prod.snd), List.zip_append (by simp), List.zip_nil_right,
    List.append_nil]
  exact (List.zip_of_prod rfl rfl).symm

theorem reported_wait {s s' : Stack} {env : Env} {epfd maxevents timeout : Int} {out : Out}
    (h : pollMachine.step s (.wait env epfd maxevents timeout) = .ok (s', out))
    : reported ⟨s, .wait env epfd maxevents timeout, out, s'⟩ = takenEntries s epfd maxevents := by
  rcases map_eq_ok h with ⟨⟨r, events, s''⟩, hwait, heq⟩
  cases heq
  rw [reported]
  dsimp only
  rw [nepollWait_entries hwait]
  exact zip_of_map_initial (takenEntries_initial s epfd maxevents)

theorem nepollCtl_add_cases {env : Env} {s s' : Stack} {epfd sockid r : Int}
    {event : Option EpollEvent} (h : nepollCtl env s epfd epollCtlAdd sockid event = .ok (r, s'))
    : r = -1 ∧ s' = s
      ∨ r = 0 ∧ ∃ ep, s.table.ep = some ep ∧ ep.find sockid = none ∧ s' = s.setEp { ep with
          rbr := ep.rbr.add { env.staleEpitem with sockfd := sockid, event := event.getD default }
          rbcnt := ep.rbcnt + 1 } := by
  rcases nepollCtl_ep h with hrefused | ⟨ep, hinfo, hevent⟩
  . exact .inl hrefused
  . have hep : (Hostinfo.ep ep).asEp = .ok ep := (Hostinfo.asEp_eq_ok_iff _ ep).mpr rfl
    simp only [nepollCtl, hinfo, hevent, hep, Bool.false_eq_true, ↓reduceIte] at h
    split at h
    . cases h
      exact .inl ⟨rfl, rfl⟩
    . next hfind =>
      split at h
      . cases h
        exact .inl ⟨rfl, rfl⟩
      . cases h
        exact .inr ⟨rfl, ep, (getHostinfoFromfd_ep hinfo).1, hfind, rfl⟩

theorem nepollCtl_mod_cases {env : Env} {s s' : Stack} {epfd sockid r : Int}
    {event : Option EpollEvent} (h : nepollCtl env s epfd epollCtlMod sockid event = .ok (r, s'))
    : r = -1 ∧ s' = s
      ∨ r = 0 ∧ ∃ ep a epi, s.table.ep = some ep ∧ ep.find sockid = some (a, epi)
          ∧ s' = s.setEp { ep with
            rbr := ep.rbr.modify a (fun epi => { epi with
              event.events := (event.getD default).events ||| (epollerr ||| epollhup) }) } := by
  rcases nepollCtl_ep h with hrefused | ⟨ep, hinfo, hevent⟩
  . exact .inl hrefused
  . have hadd : epollCtlMod ≠ epollCtlAdd := by decide
    have hdel : epollCtlMod ≠ epollCtlDel := by decide
    have hep : (Hostinfo.ep ep).asEp = .ok ep := (Hostinfo.asEp_eq_ok_iff _ ep).mpr rfl
    simp only [nepollCtl, hinfo, hevent, hep, hadd, hdel, Bool.false_eq_true, ↓reduceIte] at h
    split at h
    . cases h
      exact .inl ⟨rfl, rfl⟩
    . next a epi hfind =>
      cases h
      exact .inr ⟨rfl, ep, a, epi, (getHostinfoFromfd_ep hinfo).1, hfind, rfl⟩

/--
A socket is registered once, and but for `EPOLLERR` and `EPOLLHUP` with the mask that was asked for.
-/
structure MaskInv (m : Masks) (ep : Eventpoll) : Prop where
  single : ∀ a b fd x y, ep.entryOf a = some (fd, x) → ep.entryOf b = some (fd, y) → a = b
  stored : ∀ a fd x, ep.entryOf a = some (fd, x)
    → x ||| (epollerr ||| epollhup) = m.interest fd ||| (epollerr ||| epollhup)

namespace MaskInv

variable {m m' : Masks} {ep ep' : Eventpoll}

theorem congr (h : MaskInv m ep) (hentry : ep'.entryOf = ep.entryOf)
    (hinterest : m'.interest = m.interest) : MaskInv m' ep' := by
  constructor
  . rw [hentry]
    exact h.single
  . rw [hentry, hinterest]
    exact h.stored

theorem register {a : Addr} {sockid : Int} {x : UInt32} {event : Option EpollEvent}
    (h : MaskInv m ep) (hentry : ep'.entryOf = Function.update ep.entryOf a (some (sockid, x)))
    (honly : ∀ b y, ep.entryOf b = some (sockid, y) → b = a)
    (hx : x ||| (epollerr ||| epollhup) = (event.getD default).events ||| (epollerr ||| epollhup))
    : MaskInv (m.register sockid event) ep' := by
  -- No other item is registered for the socket.
  have hcases : ∀ b fd y, ep'.entryOf b = some (fd, y)
      → b = a ∧ fd = sockid ∧ y = x ∨ b ≠ a ∧ fd ≠ sockid ∧ ep.entryOf b = some (fd, y) := by
    intro b fd y hb
    rw [hentry] at hb
    by_cases hba : b = a
    . subst hba
      rw [Function.update_self] at hb
      cases hb
      exact .inl ⟨rfl, rfl, rfl⟩
    . rw [Function.update_of_ne hba] at hb
      refine .inr ⟨hba, ?_, hb⟩
      rintro rfl
      exact hba (honly b y hb)
  constructor
  . intro b c fd y z hb hc
    rcases hcases b fd y hb with ⟨rfl, rfl, _⟩ | ⟨_, hfd, hb⟩
    . rcases hcases c fd z hc with ⟨rfl, _⟩ | ⟨_, hfd', _⟩
      . rfl
      . exact absurd rfl hfd'
    . rcases hcases c fd z hc with ⟨_, hfd', _⟩ | ⟨_, _, hc⟩
      . exact absurd hfd' hfd
      . exact h.single b c fd y z hb hc
  . intro b fd y hb
    rcases hcases b fd y hb with ⟨_, rfl, rfl⟩ | ⟨_, hfd, hb⟩
    . dsimp only [Masks.register]
      rw [Function.update_self]
      exact hx
    . dsimp only [Masks.register]
      rw [Function.update_of_ne hfd]
      exact h.stored b fd y hb

end MaskInv

theorem Signalled.entryOf_eq_iff {ep ep' : Eventpoll} {sockid : Int} {event : UInt32}
    (h : Signalled ep sockid event ep')
    : ep'.entryOf = ep.entryOf
        ↔ (ep.find sockid).all (fun found =>
            found.2.rdy == 0 || maskWithin event found.2.event.events) = true := by
  cases h with
  | absent hfind => simp [hfind]
  | @merged a epi hfind hrdy =>
    have hget := (Eventpoll.get?_of_find hfind).1
    rw [Eventpoll.entryOf_modify
      (fun epi => { epi with event.events := epi.event.events ||| event }) hget rfl,
      Function.update_eq_self_iff, Eventpoll.entryOf_of_get? hget, hfind]
    dsimp only
    simp [hrdy, maskWithin, or_eq_left_iff]
  | @ready a epi hfind hrdy =>
    rw [Eventpoll.entryOf_mark 1 (Eventpoll.get?_of_find hfind).1 rfl, hfind]
    simp [hrdy]

/--
The event poll, if there is one, is in keeping with the masks.
-/
def MasksHeld (m : Masks) (s : Stack) : Prop :=
  ∀ ep, s.table.ep = some ep → MaskInv m ep

theorem masksHeld_setEp (m : Masks) (s : Stack) (ep : Eventpoll)
    : MasksHeld m (s.setEp ep) ↔ MaskInv m ep := by
  constructor
  . intro h
    exact h ep rfl
  . intro h ep' hep
    cases hep
    exact h

theorem entryOf_setEp (s : Stack) (ep : Eventpoll) : (s.setEp ep).entryOf = ep.entryOf := by
  rfl

theorem entryOf_of_ep {s : Stack} {ep : Eventpoll} (h : s.table.ep = some ep)
    : s.entryOf = ep.entryOf := by
  funext a
  rw [Stack.entryOf, h]
  rfl

theorem MaskInv.eq_due_iff {m : Masks} {ep : Eventpoll} (h : MaskInv m ep) {a : Addr} {fd : Int}
    {x : UInt32} (hentry : ep.entryOf a = some (fd, x))
    : x = m.due fd ↔ maskWithin x (m.pending fd) = true
        ∧ maskWithin (m.pending fd &&& (epollerr ||| epollhup)) x = true := by
  rw [Masks.due, ← h.stored a fd x hentry, eq_and_or_iff, maskWithin, maskWithin, beq_iff_eq,
    beq_iff_eq]

theorem mem_takenEntries {s : Stack} {epfd maxevents : Int} {r : Int × UInt32}
    (h : r ∈ takenEntries s epfd maxevents)
    : ∃ ep a, s.table.ep = some ep ∧ ep.entryOf a = some r := by
  unfold takenEntries at h
  split at h
  . next ep hinfo =>
    split at h
    . contradiction
    . rw [List.mem_filterMap] at h
      rcases h with ⟨a, _, ha⟩
      exact ⟨ep, a, (getHostinfoFromfd_ep hinfo).1, ha⟩
  . contradiction

theorem reported_eq_nil {e : PollStep} (h : e.out.events = []) : reported e = [] := by
  rw [reported, h]
  exact List.zip_nil_right

section

variable {m : Masks} {s s' : Stack} {out : Out}

theorem entryOf_eq_of_wait {env : Env} {epfd maxevents timeout r : Int} {events : List EpollEvent}
    (h : nepollWait env s epfd maxevents timeout = .ok (r, events, s')) : s'.entryOf = s.entryOf := by
  rcases nepollWait_cases h with ⟨rfl, _⟩ | ⟨ep, ep', hinfo, hpop, _, rfl⟩
  . rfl
  . rw [entryOf_setEp, entryOf_of_ep (getHostinfoFromfd_ep hinfo).1, hpop.entryOf_eq]

/-- A step does what is asked of it exactly when it meets the condition. -/
theorem masksKept_step_iff {call : PollCall} (hI : MasksHeld m s)
    (hstep : pollMachine.step s call = .ok (s', out))
    : MasksKept m ⟨s, call, out, s'⟩ ↔ maskCond m ⟨s, call, out, s'⟩ = true := by
  -- Only a wait reports anything, and only a callback may change a mask that nobody asked to change.
  have hnone (hevents : out.events = []) (r : Int × UInt32)
      (hr : r ∈ reported ⟨s, call, out, s'⟩) : r.2 = m.due r.1 := by
    rw [reported_eq_nil hevents] at hr
    contradiction
  cases call with
  | add env epfd sockid event =>
    rcases map_eq_ok hstep with ⟨⟨r, t⟩, _, heq⟩
    cases heq
    exact iff_of_true ⟨hnone rfl, by simp [PollCall.registers]⟩ rfl
  | mod env epfd sockid event =>
    rcases map_eq_ok hstep with ⟨⟨r, t⟩, _, heq⟩
    cases heq
    exact iff_of_true ⟨hnone rfl, by simp [PollCall.registers]⟩ rfl
  | signal sockid event =>
    rcases map_eq_ok hstep with ⟨⟨r, ep'⟩, hcall, heq⟩
    cases heq
    rcases epollEventCallback_cases hcall with ⟨ep, hep, hsig⟩
    have hunchanged : (∀ a, (s.setEp ep').entryOf a = s.entryOf a) ↔ ep'.entryOf = ep.entryOf := by
      rw [entryOf_setEp, entryOf_of_ep hep, funext_iff]
    simp only [maskCond, hep]
    rw [← hsig.entryOf_eq_iff, ← hunchanged]
    constructor
    . intro h
      exact h.registered rfl
    . intro h
      exact ⟨hnone rfl, fun _ => h⟩
  | wait env epfd maxevents timeout =>
    have hreported := reported_wait hstep
    rcases map_eq_ok hstep with ⟨⟨r, events, t⟩, hwait, heq⟩
    cases heq
    have hregistered := entryOf_eq_of_wait hwait
    -- The invariant leaves `EPOLLERR` and `EPOLLHUP` open, so that they are compared apart.
    have hdue : ∀ r ∈ takenEntries s epfd maxevents, (r.2 = m.due r.1
        ↔ maskWithin r.2 (m.pending r.1) = true
          ∧ maskWithin (m.pending r.1 &&& (epollerr ||| epollhup)) r.2 = true) := by
      intro r hr
      rcases mem_takenEntries hr with ⟨ep, a, hep, ha⟩
      exact (hI ep hep).eq_due_iff ha
    simp only [maskCond, List.all_eq_true, Bool.and_eq_true]
    rw [← forall₂_congr hdue]
    constructor
    . intro h
      rw [← hreported]
      exact h.reported
    . intro h
      rw [← hreported] at h
      exact ⟨h, fun _ => congrFun hregistered⟩

theorem masksHeld_add {env : Env} {epfd sockid r : Int} {event : Option EpollEvent}
    (hI : MasksHeld m s) (hcall : nepollCtl env s epfd epollCtlAdd sockid event = .ok (r, s'))
    : MasksHeld (if r = 0 then m.register sockid event else m) s' := by
  rcases nepollCtl_add_cases hcall with ⟨rfl, rfl⟩ | ⟨rfl, ep, hep, hfind, rfl⟩
  . exact hI
  . refine (masksHeld_setEp _ s _).mpr ?_
    refine (hI ep hep).register (a := ep.rbr.next) (x := (event.getD default).events) ?_ ?_ rfl
    . rw [Eventpoll.entryOf_add (show _ = ep.rbr.add _ from rfl)]
    . intro b y hb
      rw [Eventpoll.entryOf, Option.map_eq_some_iff] at hb
      rcases hb with ⟨epi, hget, heq⟩
      have := (ObjList.find?_eq_none_iff ep.rbr _).mp hfind b epi hget
      cases heq
      simp at this

theorem masksHeld_mod {env : Env} {epfd sockid r : Int} {event : Option EpollEvent}
    (hI : MasksHeld m s) (hcall : nepollCtl env s epfd epollCtlMod sockid event = .ok (r, s'))
    : MasksHeld (if r = 0 then m.register sockid event else m) s' := by
  rcases nepollCtl_mod_cases hcall with ⟨rfl, rfl⟩ | ⟨rfl, ep, a, epi, hep, hfind, rfl⟩
  . exact hI
  . rcases Eventpoll.get?_of_find hfind with ⟨hget, hsock⟩
    have hentry := Eventpoll.entryOf_of_get? hget
    rw [hsock] at hentry
    refine (masksHeld_setEp _ s _).mpr ?_
    refine (hI ep hep).register (a := a)
      (x := (event.getD default).events ||| (epollerr ||| epollhup)) ?_ ?_ ?_
    . rw [Eventpoll.entryOf_modify (fun epi => { epi with
        event.events := (event.getD default).events ||| (epollerr ||| epollhup) }) hget rfl]
      dsimp only
      rw [hsock]
    . intro b y hb
      exact (hI ep hep).single b a sockid y _ hb hentry
    . rw [UInt32.or_assoc, UInt32.or_self]

/-- The event poll stays in keeping with the masks as long as the steps do what is asked of them. -/
theorem masksHeld_step {call : PollCall} (hI : MasksHeld m s)
    (hkept : MasksKept m ⟨s, call, out, s'⟩) (hstep : pollMachine.step s call = .ok (s', out))
    : MasksHeld (m.after ⟨s, call, out, s'⟩) s' := by
  cases call with
  | add env epfd sockid event =>
    rcases map_eq_ok hstep with ⟨⟨r, t⟩, hcall, heq⟩
    cases heq
    exact masksHeld_add hI hcall
  | mod env epfd sockid event =>
    rcases map_eq_ok hstep with ⟨⟨r, t⟩, hcall, heq⟩
    cases heq
    exact masksHeld_mod hI hcall
  | signal sockid event =>
    rcases map_eq_ok hstep with ⟨⟨r, ep'⟩, hcall, heq⟩
    cases heq
    rcases epollEventCallback_cases hcall with ⟨ep, hep, _⟩
    have hentry : ep'.entryOf = ep.entryOf := by
      rw [← entryOf_setEp s ep', ← entryOf_of_ep hep]
      exact funext (hkept.registered rfl)
    refine (masksHeld_setEp _ s _).mpr ((hI ep hep).congr hentry ?_)
    dsimp only [Masks.after]
    split <;> rfl
  | wait env epfd maxevents timeout =>
    rcases map_eq_ok hstep with ⟨⟨r, events, t⟩, hwait, heq⟩
    cases heq
    rcases nepollWait_cases hwait with ⟨rfl, _⟩ | ⟨ep, ep', hinfo, hpop, _, rfl⟩
    . intro ep hep
      exact (hI ep hep).congr rfl rfl
    . exact (masksHeld_setEp _ s _).mpr
        ((hI ep (getHostinfoFromfd_ep hinfo).1).congr hpop.entryOf_eq rfl)

end

theorem masksHeld_of_noneRegistered {s : Stack} (h : NoneRegistered s) : MasksHeld .none s := by
  intro ep hep
  have hentry (a : Addr) : ep.entryOf a = none := by
    rw [Eventpoll.entryOf, (h ep hep).1 a]
    rfl
  constructor <;> simp [hentry]

/--
Over a run of the calls every wait reports what is due, and neither signals nor waits change what a socket
is registered with, exactly when every step meets the condition.
-/
theorem masksKept_iff {s t : Stack} {tr : List PollStep} (h : PollRun s tr t)
    (hnone : NoneRegistered s)
    : (∀ tr1 e tr2, tr = tr1 ++ e :: tr2 → MasksKept (masksOf tr1) e)
        ↔ ∀ tr1 e tr2, tr = tr1 ++ e :: tr2 → maskCond (masksOf tr1) e = true := by
  refine h.forall_edge_iff_past_guard (I := fun tr s => MasksHeld (masksOf tr) s)
    (P := fun tr1 e => MasksKept (masksOf tr1) e)
    (C := fun tr1 e => maskCond (masksOf tr1) e = true) ?_ ?_ ?_
  . exact masksHeld_of_noneRegistered hnone
  . intro tr s call out s' hI hkept hstep
    rw [masksOf_append]
    exact masksHeld_step hI hkept hstep
  . intro tr s call out s' hI hstep
    exact masksKept_step_iff hI hstep

/--
The stack of an application that has just created its event poll.
-/
def pollCreated : Stack :=
  match nepollCreate .granting .init 1 with
  | .ok (_, s) => s
  | .error _ => .init

theorem noneRegistered_pollCreated : NoneRegistered pollCreated := by
  intro ep hep
  cases hep
  exact ⟨fun _ => rfl, rfl⟩

/-- Two sockets that are registered with `EPOLLIN` and signalled with nothing else. -/
theorem masksKept_iff_epollin
    : ∃ tr t, PollRun pollCreated tr t
        ∧ tr.map (fun e => e.out.events.map EpollEvent.events)
          = [[], [], [], [], [], [epollin], [], [epollin, epollin]]
        ∧ ∀ tr1 e tr2, tr = tr1 ++ e :: tr2 → MasksKept (masksOf tr1) e := by
  have hcheck : pollMachine.check pollCreated
      [.add .granting 3 7 (some { events := epollin, fd := 7 }),
        .add .granting 3 8 (some { events := epollin, fd := 8 }),
        .signal 7 epollin, .signal 8 epollin, .signal 7 epollin, .wait .granting 3 1 5,
        .signal 8 epollin, .wait .granting 3 128 5]
      (fun tr _ => tr.map (fun e => e.out.events.map EpollEvent.events)
          == [[], [], [], [], [], [epollin], [], [epollin, epollin]]
        && everywhere (fun tr e => maskCond (masksOf tr) e) tr) = true := by
    decide +kernel
  rcases Machine.exists_run_of_check hcheck with ⟨tr, t, hrun, _, htest⟩
  rw [Bool.and_eq_true, beq_iff_eq] at htest
  refine ⟨tr, t, hrun, htest.1, (masksKept_iff hrun noneRegistered_pollCreated).mpr ?_⟩
  intro tr1 e tr2 htr
  exact of_everywhere htest.2 htr

/-- A socket that is registered with `EPOLLIN` is reported with `EPOLLIN` when it hangs up. -/
theorem not_masksKept
    : ¬∀ s tr t, PollRun s tr t → NoneRegistered s
        → ∀ tr1 e tr2, tr = tr1 ++ e :: tr2 → MasksKept (masksOf tr1) e := by
  have hcheck : pollMachine.check pollCreated
      [.add .granting 3 7 (some { events := epollin, fd := 7 }), .signal 7 epollhup,
        .wait .granting 3 128 5]
      (fun tr _ => tr[2]?.any (fun e =>
        (reported e).any (fun r => r.2 == epollin && (masksOf (tr.take 2)).due r.1 == epollhup)))
      = true := by
    decide +kernel
  rcases Machine.exists_run_of_check hcheck with ⟨tr, t, hrun, _, htest⟩
  rw [Option.any_eq_true] at htest
  rcases htest with ⟨e, he, htest⟩
  rw [List.any_eq_true] at htest
  rcases htest with ⟨r, hr, htest⟩
  simp only [Bool.and_eq_true, beq_iff_eq] at htest
  intro hall
  rcases List.getElem?_eq_some_iff.mp he with ⟨hlt, he⟩
  have hsplit : tr = tr.take 2 ++ e :: tr.drop 3 := by
    rw [← he, List.getElem_cons_drop, List.take_append_drop]
  have hdue := (hall pollCreated tr t hrun noneRegistered_pollCreated _ e _ hsplit).reported r hr
  rw [htest.1, htest.2] at hdue
  exact absurd hdue (by decide)

end NgStack
