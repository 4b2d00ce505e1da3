import DpdkLearning.Stack.Lemmas.System
import Mathlib.Data.List.Count

/-!
This module contains the events the event poll owes the application: what each call adds to them and
takes from them.
-/

open Lib

namespace NgStack

namespace Eventpoll

/--
The item is registered and reports the descriptor.
-/
def reports (ep : Eventpoll) (fd : Int) (a : Addr) : Bool :=
  (ep.rbr.get? a).any (fun epi => epi.event.fd == fd)

/--
How many ready items report the descriptor.
-/
def due (ep : Eventpoll) (fd : Int) : Nat :=
  ep.rdlist.countP (ep.reports fd)

/--
An event for the descriptor would make its item ready.
-/
def armed (ep : Eventpoll) (fd : Int) : Bool :=
  (ep.find fd).any (fun found => found.2.rdy == 0)

/--
Every item reports the descriptor it is registered for.
-/
def Labelled (ep : Eventpoll) : Prop :=
  ∀ a epi, ep.rbr.get? a = some epi → epi.event.fd = epi.sockfd

variable {ep ep' : Eventpoll} {a : Addr} {epi : Epitem}

theorem due_modify (ep : Eventpoll) {f : Epitem → Epitem} {l : List Addr}
    (hf : ∀ epi, (f epi).event.fd = epi.event.fd) (h' : ep'.rbr = ep.rbr.modify a f) (hlist : ep'.rdlist = l) (fd : Int)
    : ep'.due fd = l.countP (ep.reports fd) := by
  have hreports : ep'.reports fd = ep.reports fd := by
    funext b
    rw [reports, h', ObjList.get?_modify, reports]
    split
    . cases ep.rbr.get? b <;> simp [hf]
    . rfl
  rw [due, hlist, hreports]

theorem Labelled.modify {f : Epitem → Epitem} (h : ep.Labelled)
    (hf : ∀ epi, (f epi).event.fd = epi.event.fd ∧ (f epi).sockfd = epi.sockfd)
    (h' : ep'.rbr = ep.rbr.modify a f) : ep'.Labelled := by
  intro b epi' hget
  rw [h', ObjList.get?_modify] at hget
  split at hget
  . rw [Option.map_eq_some_iff] at hget
    rcases hget with ⟨epi, hget, rfl⟩
    rw [(hf epi).1, (hf epi).2]
    exact h b epi hget
  . exact h b epi' hget

theorem Labelled.add (h : ep.Labelled) (hepi : epi.event.fd = epi.sockfd)
    (h' : ep'.rbr = ep.rbr.add epi) : ep'.Labelled := by
  intro b epi' hget
  rw [h', ObjList.get?_add] at hget
  split at hget
  . rw [← Option.some.inj hget]
    exact hepi
  . exact h b epi' hget

theorem Labelled.remove (h : ep.Labelled) (h' : ep'.rbr = ep.rbr.remove a) : ep'.Labelled := by
  intro b epi' hget
  rw [h'] at hget
  exact h b epi' (ObjList.get?_of_get?_remove hget).2

theorem due_add (h' : ep'.rbr = ep.rbr.add epi) (hlist : ep'.rdlist = ep.rdlist) (fd : Int)
    : ep.due fd ≤ ep'.due fd := by
  rw [due, due, hlist]
  apply List.countP_mono_left
  intro b _ hb
  rw [reports, Option.any_eq_true] at hb ⊢
  rcases hb with ⟨epi', hget, hfd⟩
  refine ⟨epi', ?_, hfd⟩
  rw [h']
  exact ObjList.get?_add_of_get? epi hget

theorem due_remove (hl : ep.Labelled) (hget : ep.rbr.get? a = some epi)
    (h' : ep'.rbr = ep.rbr.remove a) (hlist : ep'.rdlist = ep.rdlist) {fd : Int}
    (hfd : fd ≠ epi.sockfd) : ep.due fd ≤ ep'.due fd := by
  rw [due, due, hlist]
  apply List.countP_mono_left
  intro b _ hb
  rw [reports, Option.any_eq_true] at hb ⊢
  rcases hb with ⟨epi', hget', heq⟩
  refine ⟨epi', ?_, heq⟩
  rw [h', ObjList.get?_remove_of_ne _ ?_]
  . exact hget'
  . rintro rfl
    rw [hget] at hget'
    cases hget'
    rw [beq_iff_eq] at heq
    exact hfd (heq.symm.trans (hl b epi hget))

end Eventpoll

namespace Signalled

variable {ep ep' : Eventpoll} {sockid : Int} {event : UInt32}

theorem labelled (h : Signalled ep sockid event ep') (hl : ep.Labelled) : ep'.Labelled := by
  cases h with
  | absent _ => exact hl
  | merged _ _ =>
    exact hl.modify (f := fun epi => { epi with event.events := epi.event.events ||| event })
      (fun _ => ⟨rfl, rfl⟩) rfl
  | ready _ _ => exact hl.modify (f := fun epi => { epi with rdy := 1 }) (fun _ => ⟨rfl, rfl⟩) rfl

theorem due_le (h : Signalled ep sockid event ep') (fd : Int) : ep.due fd ≤ ep'.due fd := by
  cases h with
  | absent _ => exact Nat.le_refl _
  | merged _ _ =>
    refine Nat.le_of_eq (Eq.symm (Eventpoll.due_modify ep
      (f := fun epi => { epi with event.events := epi.event.events ||| event }) ?_ rfl rfl fd))
    exact fun _ => rfl
  | @ready a _ _ _ =>
    calc ep.due fd
      _ ≤ (a :: ep.rdlist).countP (ep.reports fd) := (List.sublist_cons_self _ _).countP_le
      _ = _ := Eq.symm (Eventpoll.due_modify ep (f := fun epi => { epi with rdy := 1 })
        (fun _ => rfl) rfl rfl fd)

theorem due_succ_le (h : Signalled ep sockid event ep') (hl : ep.Labelled) (harmed : ep.armed sockid)
    : ep.due sockid + 1 ≤ ep'.due sockid := by
  simp only [Eventpoll.armed, Option.any_eq_true, beq_iff_eq] at harmed
  rcases harmed with ⟨⟨a, epi⟩, hfind, hrdy⟩
  cases h with
  | absent hnone =>
    rw [hfind] at hnone
    contradiction
  | merged hfind' hrdy' =>
    rw [hfind] at hfind'
    cases hfind'
    contradiction
  | ready hfind' _ =>
    rw [hfind] at hfind'
    cases hfind'
    rcases Eventpoll.get?_of_find hfind with ⟨hget, hsock⟩
    have hreports : ep.reports sockid a = true := by
      simp [Eventpoll.reports, hget, hl a epi hget, hsock]
    calc ep.due sockid + 1
      _ = (a :: ep.rdlist).countP (ep.reports sockid) := (List.countP_cons_of_pos hreports).symm
      _ = _ := Eq.symm (Eventpoll.due_modify ep (f := fun epi => { epi with rdy := 1 })
        (fun _ => rfl) rfl rfl sockid)
      _ ≤ _ := Nat.le_refl _

end Signalled

namespace Popped

variable {ep ep' : Eventpoll} {events : List EpollEvent}

theorem labelled (h : Popped ep events ep') (hl : ep.Labelled) : ep'.Labelled := by
  induction h with
  | done _ => exact hl
  | item _ _ _ ih =>
    apply ih
    exact hl.modify (f := fun epi => { epi with rdy := 0 }) (fun _ => ⟨rfl, rfl⟩) rfl

theorem due_eq (h : Popped ep events ep') (fd : Int)
    : ep.due fd = (events.map EpollEvent.fd).count fd + ep'.due fd := by
  induction h with
  | done _ => simp
  | @item ep ep' a rest epi events hlist hget _ ih =>
    have hreports : ep.reports fd a = (epi.event.fd == fd) := by
      simp [Eventpoll.reports, hget]
    rw [Eventpoll.due_modify ep (f := fun epi => { epi with rdy := 0 }) (fun _ => rfl) rfl rfl] at ih
    rw [Eventpoll.due, hlist, List.countP_cons, ih, hreports, List.map_cons, List.count_cons]
    omega

end Popped

/--
The events the event poll in use, if any, owes for the descriptor.
-/
def pollDue (ep : Option Eventpoll) (fd : Int) : Nat :=
  ep.elim 0 (fun ep => ep.due fd)

@[simp]
theorem pollDue_some (ep : Eventpoll) (fd : Int) : pollDue (some ep) fd = ep.due fd := by
  rfl

@[simp]
theorem ep_setEp (s : Stack) (ep : Eventpoll) : (s.setEp ep).table.ep = some ep := by
  rfl

namespace SegmentHandled

variable {env : Env} {m : Mbuf} {st st' : NgTcpStream} {ep ep' : Option Eventpoll}

theorem due_le (h : SegmentHandled env m st ep st' ep') (fd : Int) : pollDue ep fd ≤ pollDue ep' fd := by
  cases h with
  | neither _ _ => exact Nat.le_refl _
  | psh _ _ _ hep hsig | fin _ _ _ hep hsig =>
    rw [hep]
    exact hsig.due_le fd
  | both _ _ _ _ hep hsig1 hsig2 =>
    rw [hep]
    exact Nat.le_trans (hsig1.due_le fd) (hsig2.due_le fd)

theorem due_succ_le (h : SegmentHandled env m st ep st' ep')
    (hflags : hasFlag m.tcp.tcpFlags rteTcpPshFlag || hasFlag m.tcp.tcpFlags rteTcpFinFlag)
    (hl : ∀ e, ep = some e → e.Labelled) (harmed : ep.any (fun e => e.armed st.fd))
    : pollDue ep st.fd + 1 ≤ pollDue ep' st.fd := by
  cases h with
  | neither hpsh hfin => simp [hpsh, hfin] at hflags
  | psh _ _ _ hep hsig | fin _ _ _ hep hsig =>
    rw [hep] at harmed ⊢
    exact hsig.due_succ_le (hl _ hep) harmed
  | both _ _ _ _ hep hsig1 hsig2 =>
    rw [hep] at harmed ⊢
    exact Nat.le_trans (hsig1.due_succ_le (hl _ hep) harmed) (hsig2.due_le st.fd)

end SegmentHandled

theorem NepollCreated.labelled {env : Env} {s s' : Stack} {size r : Int}
    (h : NepollCreated env s size (r, s')) (hl : ∀ ep, s.table.ep = some ep → ep.Labelled)
    : ∀ ep, s'.table.ep = some ep → ep.Labelled := by
  intro ep hep
  cases h with
  | refused | noMemory => exact hl ep hep
  | installed =>
    cases hep
    exact nofun

namespace NepollCtled

variable {env : Env} {s s' : Stack} {epfd op sockid : Int} {event : Option EpollEvent}

theorem labelled (h : NepollCtled env s epfd op sockid event s')
    (hevent : ∀ ev, event = some ev → ev.fd = sockid)
    (hl : ∀ ep, s.table.ep = some ep → ep.Labelled) : ∀ ep, s'.table.ep = some ep → ep.Labelled := by
  intro ep' hep'
  cases h with
  | same _ _ => exact hl ep' hep'
  | add hinfo _ hev _ _ =>
    cases hep'
    exact (hl _ (getHostinfoFromfd_ep hinfo).1).add (hevent _ hev) rfl
  | del hinfo _ _ =>
    cases hep'
    exact (hl _ (getHostinfoFromfd_ep hinfo).1).remove rfl
  | @mod ep a epi events hinfo _ _ =>
    cases hep'
    exact (hl _ (getHostinfoFromfd_ep hinfo).1).modify
      (f := fun epi => { epi with event.events := events }) (fun _ => ⟨rfl, rfl⟩) rfl

theorem due_le (h : NepollCtled env s epfd op sockid event s')
    (hl : ∀ ep, s.table.ep = some ep → ep.Labelled) {fd : Int} (hfd : op = epollCtlDel → fd ≠ sockid)
    : pollDue s.table.ep fd ≤ pollDue s'.table.ep fd := by
  cases h with
  | same _ _ => exact Nat.le_refl _
  | add hinfo _ _ _ _ =>
    rw [(getHostinfoFromfd_ep hinfo).1, ep_setEp, pollDue_some, pollDue_some]
    apply Eventpoll.due_add
    . rfl
    . rfl
  | del hinfo hop hfind =>
    have hep := (getHostinfoFromfd_ep hinfo).1
    rcases Eventpoll.get?_of_find hfind with ⟨hget, hsock⟩
    rw [hep, ep_setEp, pollDue_some, pollDue_some]
    refine Eventpoll.due_remove (hl _ hep) hget ?_ ?_ (hsock ▸ hfd hop)
    . rfl
    . rfl
  | @mod ep a epi events hinfo _ _ =>
    rw [(getHostinfoFromfd_ep hinfo).1, ep_setEp, pollDue_some, pollDue_some]
    refine Nat.le_of_eq (Eq.symm (Eventpoll.due_modify ep
      (f := fun epi => { epi with event.events := events }) ?_ rfl rfl fd))
    exact fun _ => rfl

end NepollCtled

theorem EpMoved.labelled {ep1 ep2 : Option Eventpoll} (h : EpMoved ep1 ep2)
    (hl : ∀ ep, ep1 = some ep → ep.Labelled) : ∀ ep, ep2 = some ep → ep.Labelled := by
  induction h with
  | same _ => exact hl
  | @signalled e e' _ _ h =>
    intro ep hep
    rw [← Option.some.inj hep]
    exact h.labelled (hl e rfl)
  | @popped e e' _ h =>
    intro ep hep
    rw [← Option.some.inj hep]
    exact h.labelled (hl e rfl)
  | trans _ _ ih1 ih2 => exact ih2 (ih1 hl)

theorem EpMoved.eq_none {ep1 ep2 : Option Eventpoll} (h : EpMoved ep1 ep2) (hep : ep1 = none)
    : ep2 = none := by
  induction h with
  | same _ => exact hep
  | signalled _ => contradiction
  | popped _ => contradiction
  | trans _ _ ih1 ih2 => exact ih2 (ih1 hep)

end NgStack
