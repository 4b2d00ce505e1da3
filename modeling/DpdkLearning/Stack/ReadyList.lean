import Mathlib.Data.List.Perm.Subperm
import DpdkLearning.Lib.Listed
import DpdkLearning.Stack.Lemmas.System

/-!
This module contains the integrity of the ready list: when the list, the marks of the items, the
counter and the registry agree, and which steps keep them in agreement.
-/

open Lib

namespace NgStack

structure Eventpoll.Integrity (ep : Eventpoll) : Prop where
  rdnum_eq : ep.rdnum = ep.rdlist.length
  nodup : ep.rdlist.Nodup
  rdy_iff : ∀ a epi, ep.rbr.get? a = some epi → (epi.rdy ≠ 0 ↔ a ∈ ep.rdlist)
  registered : ∀ a ∈ ep.rdlist, ep.registered a = true

theorem Eventpoll.integrity_iff_listed (ep : Eventpoll)
    : ep.Integrity ↔ Listed ep.rdy? ep.rdlist ep.rdnum := by
  constructor
  . intro h
    refine ⟨h.rdnum_eq, h.nodup, ?_, ?_⟩
    . intro a b hb
      unfold rdy? at hb
      rw [Option.map_eq_some_iff] at hb
      rcases hb with ⟨epi, hget, rfl⟩
      rw [← h.rdy_iff a epi hget]
      simp
    . intro a ha
      have := h.registered a ha
      rw [registered] at this
      rw [rdy?, Option.isSome_map]
      exact this
  . intro h
    refine ⟨h.count_eq, h.nodup, ?_, ?_⟩
    . intro a epi hget
      rw [← h.flag_iff (rdy?_of_get? hget)]
      simp
    . intro a ha
      have := h.present ha
      rw [rdy?, Option.isSome_map] at this
      exact this

/-- There are no more ready items than registered ones. -/
theorem Eventpoll.Integrity.rdnum_le {ep : Eventpoll} (h : ep.Integrity) : ep.rdnum ≤ ep.rbr.addrs.length := by
  have hsub : ep.rdlist ⊆ ep.rbr.addrs := by
    intro a ha
    exact (ObjList.isSome_get?_iff _ _).mp (h.registered a ha)
  have hlen := (List.subperm_of_subset h.nodup hsub).length_le
  rw [h.rdnum_eq]
  omega

/-- The `int` of the source holds `rdnum` as long as the number of items is at most `INT_MAX`. -/
theorem Eventpoll.Integrity.toInt_rdnum {ep : Eventpoll} (h : ep.Integrity)
    (hfew : ep.rbr.addrs.length ≤ Int32.maxValue.toInt) : (Int32.ofInt ep.rdnum).toInt = ep.rdnum := by
  have hle := h.rdnum_le
  have heq := h.rdnum_eq
  have hmax : Int32.maxValue.toInt = 2147483647 := rfl
  exact Int32.toInt_ofInt_of_le (by omega) (by omega)

/--
The event poll in use, if any, is intact.
-/
def ReadyIntegrity (s : Stack) : Prop :=
  ∀ ep, s.table.ep = some ep → ep.Integrity

/--
The call does not run into what the event poll leaves undone: the counter of a new event poll and the
mark of a new item are as the memory held them, and an item is deleted without taking it off the list.
-/
def readyCond (s : Stack) : Act → Bool
  | .nepollCreate env size =>
    decide (size ≤ 0) || !env.rteMalloc 0 || env.staleEventpoll.rdnum == 0
  | .nepollCtl env epfd op sockid event =>
    match getHostinfoFromfd s epfd with
    | some (.ep ep) =>
      match ep.find sockid with
      | none => op != epollCtlAdd || event.isNone || !env.rteMalloc 0 || env.staleEpitem.rdy == 0
      | some (_, epi) => op != epollCtlDel || epi.rdy == 0
    | _ => true
  | _ => true

theorem Signalled.listed {ep ep' : Eventpoll} {sockid : Int} {event : UInt32}
    (h : Signalled ep sockid event ep') (hl : Listed ep.rdy? ep.rdlist ep.rdnum)
    : Listed ep'.rdy? ep'.rdlist ep'.rdnum := by
  cases h with
  | absent _ => exact hl
  | @merged a epi h hrdy =>
    have hget := (Eventpoll.get?_of_find h).1
    rw [Eventpoll.rdy?_modify
      (fun epi => { epi with event.events := epi.event.events ||| event }) hget rfl]
    dsimp
    rw [← Eventpoll.rdy?_of_get? hget, Function.update_eq_self]
    exact hl
  | @ready a epi h hrdy =>
    have hget := (Eventpoll.get?_of_find h).1
    have hflag := Eventpoll.rdy?_of_get? hget
    rw [hrdy] at hflag
    rw [Eventpoll.rdy?_modify (fun epi => { epi with rdy := 1 }) hget rfl]
    exact hl.cons hflag

theorem Popped.listed {ep ep' : Eventpoll} {events : List EpollEvent} (h : Popped ep events ep')
    (hl : Listed ep.rdy? ep.rdlist ep.rdnum) : Listed ep'.rdy? ep'.rdlist ep'.rdnum := by
  induction h with
  | done _ => exact hl
  | item hlist hget _ ih =>
    apply ih
    rw [hlist] at hl
    rw [Eventpoll.rdy?_modify (fun epi => { epi with rdy := 0 }) hget rfl]
    exact hl.tail

theorem EpMoved.integrity {ep1 ep2 : Option Eventpoll} (h : EpMoved ep1 ep2)
    (hI : ∀ ep, ep1 = some ep → ep.Integrity)
    : ∀ ep, ep2 = some ep → ep.Integrity := by
  induction h with
  | same _ => exact hI
  | @signalled e e' _ _ h =>
    intro ep heq
    rw [← Option.some.inj heq, Eventpoll.integrity_iff_listed]
    exact h.listed ((e.integrity_iff_listed).mp (hI e rfl))
  | @popped e e' _ h =>
    intro ep heq
    rw [← Option.some.inj heq, Eventpoll.integrity_iff_listed]
    exact h.listed ((e.integrity_iff_listed).mp (hI e rfl))
  | trans _ _ ih1 ih2 => exact ih2 (ih1 hI)

theorem readyIntegrity_some_iff {s : Stack} {ep : Eventpoll} (h : s.table.ep = some ep)
    : ReadyIntegrity s ↔ Listed ep.rdy? ep.rdlist ep.rdnum := by
  rw [← ep.integrity_iff_listed]
  constructor
  . intro hI
    exact hI ep h
  . intro hI e he
    rw [h] at he
    rw [← Option.some.inj he]
    exact hI

theorem readyIntegrity_setEp (s : Stack) (ep : Eventpoll)
    : ReadyIntegrity (s.setEp ep) ↔ Listed ep.rdy? ep.rdlist ep.rdnum :=
  readyIntegrity_some_iff rfl

theorem nepollCreate_integrity_iff {env : Env} {s s' : Stack} {size r : Int}
    (h : NepollCreated env s size (r, s')) (hI : ReadyIntegrity s)
    : ReadyIntegrity s' ↔ readyCond s (.nepollCreate env size) = true := by
  unfold readyCond
  cases h with
  | refused hsize => simp [hsize, hI]
  | noMemory _ hmalloc =>
    simp only [hmalloc, Bool.not_false, Bool.or_true, Bool.true_or, iff_true]
    exact hI
  | installed hsize hmalloc =>
    rw [readyIntegrity_some_iff rfl]
    -- The list is empty, but the counter is what the memory held.
    have hempty : Eventpoll.rdy? { env.staleEventpoll with
        fd := (getFdFrombitmap s.fdTable).1
        rbcnt := 0
        rbr := .empty
        rdlist := [] } = fun _ => none := rfl
    rw [hempty]
    dsimp
    rw [Listed.nil_iff]
    simp [hmalloc, Int.not_le.mpr hsize]

theorem nepollCtl_integrity_iff {env : Env} {s s' : Stack} {epfd op sockid : Int}
    {event : Option EpollEvent} (h : NepollCtled env s epfd op sockid event s')
    (hI : ReadyIntegrity s)
    : ReadyIntegrity s' ↔ readyCond s (.nepollCtl env epfd op sockid event) = true := by
  unfold readyCond
  cases h with
  | same hadd hdel =>
    apply iff_of_true hI
    dsimp only
    split
    . next ep hinfo =>
      split
      . next hfind =>
        by_cases hop : op = epollCtlAdd
        . cases event with
          | none => simp
          | some ev => simp [hadd ep hinfo hop rfl hfind]
        . simp [hop]
      . next hfind =>
        have hop : op ≠ epollCtlDel := by
          intro hop
          rw [hdel ep hinfo hop] at hfind
          contradiction
        simp [hop]
    . rfl
  -- The mark of a new item is whatever its memory held.
  | @add ep ev hinfo hop hevent hfind hmalloc =>
    have hep := (getHostinfoFromfd_ep hinfo).1
    rw [readyIntegrity_some_iff hep] at hI
    have hnew : ep.rdy? ep.rbr.next = none := by
      rw [Eventpoll.rdy?, ObjList.get?_next]
      rfl
    refine (readyIntegrity_setEp s _).trans ?_
    rw [Eventpoll.rdy?_add (show _ = ep.rbr.add _ from rfl), hI.add_iff hnew]
    simp [hinfo, hfind, hop, hevent, hmalloc]
  -- The item is freed whether or not it is on the ready list.
  | @del ep a epi hinfo hop hfind =>
    have hep := (getHostinfoFromfd_ep hinfo).1
    rw [readyIntegrity_some_iff hep] at hI
    have hget := Eventpoll.rdy?_of_get? (Eventpoll.get?_of_find hfind).1
    refine (readyIntegrity_setEp s _).trans ?_
    rw [Eventpoll.rdy?_remove (show _ = ep.rbr.remove a from rfl), hI.remove_iff hget]
    simp [hinfo, hfind, hop]
  | @mod ep a epi events hinfo hop hfind =>
    have hep := (getHostinfoFromfd_ep hinfo).1
    rw [readyIntegrity_some_iff hep] at hI
    have hget := (Eventpoll.get?_of_find hfind).1
    have hdel : op ≠ epollCtlDel := by
      rw [hop]
      decide
    refine (readyIntegrity_setEp s _).trans ?_
    rw [Eventpoll.rdy?_modify (fun epi => { epi with event.events := events }) hget (show _ = ep.rbr.modify a _ from rfl)]
    dsimp
    rw [← Eventpoll.rdy?_of_get? hget, Function.update_eq_self]
    simp [hinfo, hfind, hdel, hI]

theorem readyIntegrity_step_iff {s s' : Stack} {act : Act} {out : Out}
    (h : machine.step s act = .ok (s', out)) (hI : ReadyIntegrity s)
    : ReadyIntegrity s' ↔ readyCond s act = true := by
  have hother (hcond : readyCond s act = true)
      (hcreate : ∀ env size, act ≠ .nepollCreate env size)
      (hctl : ∀ env epfd op sockid event, act ≠ .nepollCtl env epfd op sockid event)
      : ReadyIntegrity s' ↔ readyCond s act = true := by
    apply iff_of_true _ hcond
    exact (epMoved_of_stepped (stepped_of_step h) hcreate hctl).integrity hI
  cases act with
  | nepollCreate env size =>
    cases stepped_of_step h with
    | nepollCreate h => exact nepollCreate_integrity_iff h hI
  | nepollCtl env epfd op sockid event =>
    cases stepped_of_step h with
    | nepollCtl h => exact nepollCtl_integrity_iff h hI
  | _ => exact hother rfl (by simp) (by simp)

/--
The states of a run keep the ready list intact exactly as long as every step meets the condition.
-/
theorem readyIntegrity_run_iff {tr : List Step} {t : Stack} (h : Run .init tr t)
    : (∀ tr' t', tr' <+: tr → Run .init tr' t' → ReadyIntegrity t')
        ↔ ∀ e ∈ tr, readyCond e.pre e.act = true := by
  apply Machine.Run.forall_prefix_iff_guard (P := fun _ t => ReadyIntegrity t)
    (C := fun s act => readyCond s act = true) h
  . intro ep hep
    contradiction
  . intro _ _ _ _ _ _ hI hstep
    exact readyIntegrity_step_iff hstep hI

/-- A socket is registered, made ready and handed out, and deleted only then. -/
theorem readyIntegrity_run_served
    : ∃ tr t, Run .init tr t
        ∧ tr.map Edge.act = [.nepollCreate .granting 1,
          .nepollCtl .granting 3 epollCtlAdd 7 (some { events := epollin, fd := 7 }),
          .epollEventCallback 7 epollin, .nepollWait .granting 3 128 5,
          .nepollCtl .granting 3 epollCtlDel 7 none]
        ∧ ∀ tr' t', tr' <+: tr → Run .init tr' t' → ReadyIntegrity t' := by
  have hcheck : machine.check .init [.nepollCreate .granting 1,
      .nepollCtl .granting 3 epollCtlAdd 7 (some { events := epollin, fd := 7 }),
      .epollEventCallback 7 epollin, .nepollWait .granting 3 128 5,
      .nepollCtl .granting 3 epollCtlDel 7 none]
      (fun tr _ => tr.all (fun e => readyCond e.pre e.act)) = true := by
    decide +kernel
  rcases Machine.exists_run_of_check hcheck with ⟨tr, t, hrun, hacts, hcond⟩
  rw [List.all_eq_true] at hcond
  exact ⟨tr, t, hrun, hacts, (readyIntegrity_run_iff hrun).mpr hcond⟩

/-- A socket that is deleted while it is ready stays in the list after its memory is freed. -/
theorem not_readyIntegrity_of_deleted
    : ¬∀ tr t, Run .init tr t → ReadyIntegrity t := by
  have hcheck : machine.check .init [.nepollCreate .granting 1,
      .nepollCtl .granting 3 epollCtlAdd 7 (some { events := epollin, fd := 7 }),
      .epollEventCallback 7 epollin, .nepollCtl .granting 3 epollCtlDel 7 none]
      (fun _ t => t.table.ep.any (fun ep => !ep.rdlist.all ep.registered)) = true := by
    decide +kernel
  rcases Machine.exists_run_of_check hcheck with ⟨tr, t, hrun, _, htest⟩
  intro hall
  rw [Option.any_eq_true] at htest
  rcases htest with ⟨ep, hep, htest⟩
  simp only [Bool.not_eq_true', List.all_eq_false] at htest
  rcases htest with ⟨a, ha, hnot⟩
  exact hnot ((hall tr t hrun ep hep).registered a ha)

end NgStack
