import DpdkLearning.Lib.Listed
import DpdkLearning.Stack.Impl.Epoll
import DpdkLearning.Stack.Lemmas.Tables

/-!
This module contains what one call can do to the event poll.
-/

open Lib

namespace NgStack

namespace Eventpoll

/--
Whether the item is registered and, if so, whether it claims to be ready.
-/
def rdy? (ep : Eventpoll) (a : Addr) : Option Bool :=
  (ep.rbr.get? a).map (fun epi => epi.rdy != 0)

theorem get?_of_find {ep : Eventpoll} {sockfd : Int} {a : Addr} {epi : Epitem}
    (h : ep.find sockfd = some (a, epi)) : ep.rbr.get? a = some epi ∧ epi.sockfd = sockfd := by
  have := ObjList.find?_some h
  rw [beq_iff_eq] at this
  exact ⟨ObjList.get?_of_find? h, this⟩

theorem rdy?_of_get? {ep : Eventpoll} {a : Addr} {epi : Epitem} (h : ep.rbr.get? a = some epi)
    : ep.rdy? a = some (epi.rdy != 0) := by
  rw [rdy?, h]
  rfl

variable {ep ep' : Eventpoll} {a : Addr} {epi : Epitem}

theorem rdy?_modify (f : Epitem → Epitem) (h : ep.rbr.get? a = some epi)
    (h' : ep'.rbr = ep.rbr.modify a f)
    : ep'.rdy? = Function.update ep.rdy? a (some ((f epi).rdy != 0)) := by
  unfold rdy?
  rw [h']
  exact ObjList.map_get?_modify (fun epi : Epitem => epi.rdy != 0) f h

theorem rdy?_add (h' : ep'.rbr = ep.rbr.add epi)
    : ep'.rdy? = Function.update ep.rdy? ep.rbr.next (some (epi.rdy != 0)) := by
  unfold rdy?
  rw [h']
  exact ObjList.map_get?_add (fun epi : Epitem => epi.rdy != 0)

theorem rdy?_remove (h' : ep'.rbr = ep.rbr.remove a)
    : ep'.rdy? = Function.update ep.rdy? a none := by
  unfold rdy?
  rw [h']
  exact ObjList.map_get?_remove (fun epi : Epitem => epi.rdy != 0)

end Eventpoll

/--
What a callback that comes back does to the event poll.
-/
inductive Signalled (ep : Eventpoll) (sockid : Int) (event : UInt32) : Eventpoll → Prop where
  | absent (h : ep.find sockid = none) : Signalled ep sockid event ep
  | merged {a : Addr} {epi : Epitem} (h : ep.find sockid = some (a, epi)) (hrdy : epi.rdy ≠ 0)
    : Signalled ep sockid event { ep with
        rbr := ep.rbr.modify a (fun epi => { epi with event.events := epi.event.events ||| event }) }
  | ready {a : Addr} {epi : Epitem} (h : ep.find sockid = some (a, epi)) (hrdy : epi.rdy = 0)
    : Signalled ep sockid event { ep with
        rbr := ep.rbr.modify a (fun epi => { epi with rdy := 1 })
        rdlist := a :: ep.rdlist
        rdnum := ep.rdnum + 1 }

theorem epollEventCallback_cases {ep : Option Eventpoll} {sockid : Int} {event : UInt32} {r : Int}
    {ep' : Eventpoll} (h : epollEventCallback ep sockid event = .ok (r, ep'))
    : ∃ e, ep = some e ∧ Signalled e sockid event ep' := by
  unfold epollEventCallback at h
  split at h
  . contradiction
  . next e =>
    refine ⟨e, rfl, ?_⟩
    split at h
    . next hfind =>
      simp only [Except.ok.injEq, Prod.mk.injEq] at h
      rw [← h.2]
      exact .absent hfind
    . next a epi hfind =>
      split at h
      . next hrdy =>
        simp only [Except.ok.injEq, Prod.mk.injEq] at h
        rw [← h.2]
        exact .merged hfind hrdy
      . next hrdy =>
        split at h
        . simp only [Except.ok.injEq, Prod.mk.injEq] at h
          rw [← h.2]
          exact .ready hfind (by simpa using hrdy)
        . contradiction

namespace Signalled

variable {ep ep' : Eventpoll} {sockid : Int} {event : UInt32}

theorem fd_eq (h : Signalled ep sockid event ep') : ep'.fd = ep.fd := by
  cases h <;> rfl

end Signalled

/--
What a `nepoll_create` that comes back returns and leaves behind.
-/
inductive NepollCreated (env : Env) (s : Stack) (size : Int) : Int × Stack → Prop where
  | refused (hsize : size ≤ 0) : NepollCreated env s size (-1, s)
  | noMemory (hsize : 0 < size) (hmalloc : env.rteMalloc 0 = false)
    : NepollCreated env s size (-1, { s with
        fdTable := setFdFrombitmap (getFdFrombitmap s.fdTable).2 (getFdFrombitmap s.fdTable).1 })
  | installed (hsize : 0 < size) (hmalloc : env.rteMalloc 0 = true)
    : NepollCreated env s size ((getFdFrombitmap s.fdTable).1, { s with
        fdTable := (getFdFrombitmap s.fdTable).2
        table.ep := some { env.staleEventpoll with
          fd := (getFdFrombitmap s.fdTable).1
          rbcnt := 0
          rbr := .empty
          rdlist := [] } })

theorem nepollCreate_cases {env : Env} {s : Stack} {size : Int} {r : Int × Stack}
    (h : nepollCreate env s size = .ok r) : NepollCreated env s size r := by
  unfold nepollCreate at h
  split at h
  . next hsize =>
    cases h
    exact .refused hsize
  . next hsize =>
    dsimp only at h
    split at h
    . next hmalloc =>
      cases h
      exact .noMemory (by omega) (by simpa using hmalloc)
    . next hmalloc =>
      split at h
      . cases h
        exact .installed (by omega) (by simpa using hmalloc)
      . contradiction

/--
What a `nepoll_ctl` that comes back does to the stack.
-/
inductive NepollCtled (env : Env) (s : Stack) (epfd op sockid : Int) (event : Option EpollEvent)
    : Stack → Prop where
  | same
    (hadd : ∀ ep, getHostinfoFromfd s epfd = some (.ep ep) → op = epollCtlAdd → event.isSome
      → ep.find sockid = none → env.rteMalloc 0 = false)
    (hdel : ∀ ep, getHostinfoFromfd s epfd = some (.ep ep) → op = epollCtlDel
      → ep.find sockid = none)
    : NepollCtled env s epfd op sockid event s
  | add {ep : Eventpoll} {ev : EpollEvent} (hinfo : getHostinfoFromfd s epfd = some (.ep ep))
    (hop : op = epollCtlAdd) (hevent : event = some ev) (hfind : ep.find sockid = none)
    (hmalloc : env.rteMalloc 0 = true)
    : NepollCtled env s epfd op sockid event (s.setEp { ep with
        rbr := ep.rbr.add { env.staleEpitem with sockfd := sockid, event := ev }
        rbcnt := ep.rbcnt + 1 })
  | del {ep : Eventpoll} {a : Addr} {epi : Epitem}
    (hinfo : getHostinfoFromfd s epfd = some (.ep ep)) (hop : op = epollCtlDel) (hfind : ep.find sockid = some (a, epi))
    : NepollCtled env s epfd op sockid event (s.setEp { ep with
        rbr := ep.rbr.remove a
        rbcnt := ep.rbcnt - 1 })
  | mod {ep : Eventpoll} {a : Addr} {epi : Epitem} {events : UInt32}
    (hinfo : getHostinfoFromfd s epfd = some (.ep ep)) (hop : op = epollCtlMod) (hfind : ep.find sockid = some (a, epi))
    : NepollCtled env s epfd op sockid event (s.setEp { ep with
        rbr := ep.rbr.modify a (fun epi => { epi with event.events := events }) })

theorem nepollCtl_ep {env : Env} {s s' : Stack} {epfd op sockid r : Int} {event : Option EpollEvent}
    (h : nepollCtl env s epfd op sockid event = .ok (r, s'))
    : r = -1 ∧ s' = s
      ∨ ∃ ep, getHostinfoFromfd s epfd = some (.ep ep) ∧ (event.isNone && op != epollCtlDel) = false := by
  unfold nepollCtl at h
  split at h
  . cases h
    exact .inl ⟨rfl, rfl⟩
  . next i hinfo =>
    split at h
    . cases h
      exact .inl ⟨rfl, rfl⟩
    . next hevent =>
      split at h
      . contradiction
      . next ep hep =>
        rw [Hostinfo.asEp_eq_ok_iff] at hep
        subst hep
        exact .inr ⟨ep, hinfo, by simpa using hevent⟩

theorem nepollCtl_cases {env : Env} {s s' : Stack} {epfd op sockid r : Int}
    {event : Option EpollEvent} (h : nepollCtl env s epfd op sockid event = .ok (r, s'))
    : NepollCtled env s epfd op sockid event s' := by
  unfold nepollCtl at h
  split at h
  . next hinfo =>
    simp only [Except.ok.injEq, Prod.mk.injEq] at h
    rw [← h.2]
    apply NepollCtled.same <;> simp [hinfo]
  . next i hinfo =>
    split at h
    . next hevent =>
      simp only [Except.ok.injEq, Prod.mk.injEq] at h
      rw [← h.2]
      simp only [Bool.and_eq_true, Option.isNone_iff_eq_none, bne_iff_ne, ne_eq] at hevent
      apply NepollCtled.same
      . simp [hevent.1]
      . simp [hevent.2]
    . next hevent =>
      split at h
      . contradiction
      . next ep hep =>
        rw [Hostinfo.asEp_eq_ok_iff] at hep
        subst hep
        -- A refusal is stated for any event poll that the descriptor denotes, and there is one only.
        have huniq : ∀ ep', getHostinfoFromfd s epfd = some (.ep ep') → ep' = ep := by
          intro ep' h'
          rw [hinfo] at h'
          simpa using h'.symm
        split at h
        . next hop =>
          have hdel : op ≠ epollCtlDel := by
            rw [hop]
            decide
          split at h
          . next found hfind =>
            simp only [Except.ok.injEq, Prod.mk.injEq] at h
            rw [← h.2]
            apply NepollCtled.same
            . intro ep' h' _ _ hnone
              rw [huniq ep' h', hfind] at hnone
              contradiction
            . simp [hdel]
          . next hfind =>
            split at h
            . next hmalloc =>
              simp only [Except.ok.injEq, Prod.mk.injEq] at h
              rw [← h.2]
              apply NepollCtled.same
              . simpa using fun _ _ _ _ _ => hmalloc
              . simp [hdel]
            . next hmalloc =>
              simp only [Except.ok.injEq, Prod.mk.injEq] at h
              rw [← h.2]
              cases event with
              | none => simp [hdel] at hevent
              | some ev => exact .add hinfo hop rfl hfind (by simpa using hmalloc)
        . next hadd =>
          split at h
          . next hop =>
            split at h
            . next hfind =>
              simp only [Except.ok.injEq, Prod.mk.injEq] at h
              rw [← h.2]
              apply NepollCtled.same
              . simp [hadd]
              . intro ep' h' _
                rw [huniq ep' h']
                exact hfind
            . next a epi hfind =>
              simp only [Except.ok.injEq, Prod.mk.injEq] at h
              rw [← h.2]
              exact .del hinfo hop hfind
          . next hdel =>
            have hsame : NepollCtled env s epfd op sockid event s := by
              apply NepollCtled.same
              . simp [hadd]
              . simp [hdel]
            split at h
            . next hop =>
              split at h
              . simp only [Except.ok.injEq, Prod.mk.injEq] at h
                rw [← h.2]
                exact hsame
              . next a epi hfind =>
                simp only [Except.ok.injEq, Prod.mk.injEq] at h
                rw [← h.2]
                exact .mod hinfo hop hfind
            . simp only [Except.ok.injEq, Prod.mk.injEq] at h
              rw [← h.2]
              exact hsame

/--
The items that a wait takes off the ready list: each loses its mark and leaves its event.
-/
inductive Popped : Eventpoll → List EpollEvent → Eventpoll → Prop where
  | done (ep : Eventpoll) : Popped ep [] ep
  | item {ep ep' : Eventpoll} {a : Addr} {rest : List Addr} {epi : Epitem}
    {events : List EpollEvent} (hlist : ep.rdlist = a :: rest) (hget : ep.rbr.get? a = some epi)
    (h : Popped { ep with
      rbr := ep.rbr.modify a (fun epi => { epi with rdy := 0 })
      rdlist := rest
      rdnum := ep.rdnum - 1 } events ep')
    : Popped ep (epi.event :: events) ep'

theorem nepollWaitPop_cases {ep ep' : Eventpoll} {num : Int} {list : List Addr}
    {events : List EpollEvent} (h : nepollWaitPop ep num list = .ok (ep', events))
    (hlist : ep.rdlist = list) : Popped ep events ep' := by
  induction list generalizing ep num events with
  | nil =>
    simp only [nepollWaitPop, Except.ok.injEq, Prod.mk.injEq] at h
    rcases h with ⟨rfl, rfl⟩
    exact .done ep
  | cons a rest ih =>
    unfold nepollWaitPop at h
    split at h
    . simp only [Except.ok.injEq, Prod.mk.injEq] at h
      rcases h with ⟨rfl, rfl⟩
      exact .done ep
    . split at h
      . contradiction
      . next epi hget =>
        split at h
        . dsimp at h
          split at h
          . contradiction
          . next hrest =>
            simp only [Except.ok.injEq, Prod.mk.injEq] at h
            rcases h with ⟨rfl, rfl⟩
            exact .item hlist hget (ih hrest rfl)
        . contradiction

theorem Popped.fd_eq {ep ep' : Eventpoll} {events : List EpollEvent} (h : Popped ep events ep')
    : ep'.fd = ep.fd := by
  induction h with
  | done => rfl
  | item _ _ _ ih => exact ih

theorem nepollWait_cases {env : Env} {s s' : Stack} {epfd maxevents timeout r : Int}
    {events : List EpollEvent}
    (h : nepollWait env s epfd maxevents timeout = .ok (r, events, s'))
    : s' = s ∧ events = []
      ∨ ∃ ep ep', getHostinfoFromfd s epfd = some (.ep ep) ∧ Popped ep events ep' ∧ r = events.length ∧ s' = s.setEp ep' := by
  unfold nepollWait at h
  split at h
  . simp only [Except.ok.injEq, Prod.mk.injEq] at h
    exact .inl ⟨h.2.2.symm, h.2.1.symm⟩
  . next i hinfo =>
    split at h
    . simp only [Except.ok.injEq, Prod.mk.injEq] at h
      exact .inl ⟨h.2.2.symm, h.2.1.symm⟩
    . split at h
      . contradiction
      . next ep hep =>
        rw [Hostinfo.asEp_eq_ok_iff] at hep
        subst hep
        split at h
        . contradiction
        . split at h
          . simp only [Except.ok.injEq, Prod.mk.injEq] at h
            exact .inl ⟨h.2.2.symm, h.2.1.symm⟩
          . dsimp at h
            split at h
            . contradiction
            . next ep' events' hpop =>
              simp only [Except.ok.injEq, Prod.mk.injEq] at h
              rcases h with ⟨rfl, rfl, rfl⟩
              exact .inr ⟨ep, ep', hinfo, nepollWaitPop_cases hpop rfl, rfl, rfl⟩

end NgStack
