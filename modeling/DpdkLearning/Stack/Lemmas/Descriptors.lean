import DpdkLearning.Stack.Lemmas.Stream

/-!
This module contains the objects that a descriptor may denote: which descriptor each of them carries,
and how the calls on the lists they live in change that.
-/

open Lib

namespace NgStack

/--
An object that a descriptor may denote.
-/
inductive Obj where
  | host (a : Addr)
  | stream (a : Addr)
  | poll
  deriving DecidableEq, Repr

def Hostinfo.obj : Hostinfo → Obj
  | .host a _ => .host a
  | .stream a _ => .stream a
  | .ep _ => .poll

namespace Stack

/--
The `fd` of an object.
-/
def carries (s : Stack) : Obj → Option Int
  | .host a => (s.lhost.get? a).map Localhost.fd
  | .stream a => (s.stream? a).map NgTcpStream.fd
  | .poll => s.table.ep.map Eventpoll.fd

/--
The object is or was there.
-/
def known (s : Stack) : Obj → Prop
  | .host a => a < s.lhost.next
  | .stream a => a < s.table.tcbSet.next
  | .poll => s.table.ep.isSome

end Stack

theorem carries_of_getHostinfoFromfd {s : Stack} {fd : Int} {i : Hostinfo}
    (h : getHostinfoFromfd s fd = some i) : s.carries i.obj = some fd := by
  cases i with
  | host a host =>
    rcases getHostinfoFromfd_host h with ⟨hget, rfl⟩
    simp [Hostinfo.obj, Stack.carries, hget]
  | stream a st =>
    rcases getHostinfoFromfd_stream h with ⟨hget, rfl⟩
    simp [Hostinfo.obj, Stack.carries, hget]
  | ep ep =>
    rcases getHostinfoFromfd_ep h with ⟨hget, rfl⟩
    simp [Hostinfo.obj, Stack.carries, hget]

theorem exists_getHostinfoFromfd {s : Stack} {o : Obj} {fd : Int} (h : s.carries o = some fd)
    : ∃ i, getHostinfoFromfd s fd = some i := by
  unfold getHostinfoFromfd
  split
  . exact ⟨_, rfl⟩
  . next hhost =>
    rw [ObjList.find?_eq_none_iff] at hhost
    split
    . exact ⟨_, rfl⟩
    . next hstream =>
      rw [ObjList.find?_eq_none_iff] at hstream
      cases o with
      | host a =>
        simp only [Stack.carries, Option.map_eq_some_iff] at h
        rcases h with ⟨host, hget, rfl⟩
        have := hhost a host hget
        simp at this
      | stream a =>
        simp only [Stack.carries, Option.map_eq_some_iff] at h
        rcases h with ⟨st, hget, rfl⟩
        have := hstream a st hget
        simp at this
      | poll =>
        simp only [Stack.carries, Option.map_eq_some_iff] at h
        rcases h with ⟨ep, hep, rfl⟩
        simp [hep]

theorem carries_eq_none_of_not_known {s : Stack} {o : Obj} (h : ¬s.known o)
    : s.carries o = none := by
  cases ho : s.carries o with
  | none => rfl
  | some fd =>
    refine absurd ?_ h
    cases o with
    | host a =>
      simp only [Stack.carries, Option.map_eq_some_iff] at ho
      rcases ho with ⟨_, hget, _⟩
      exact ObjList.lt_next_of_get? hget
    | stream a =>
      simp only [Stack.carries, Option.map_eq_some_iff] at ho
      rcases ho with ⟨_, hget, _⟩
      exact ObjList.lt_next_of_get? hget
    | poll =>
      simp only [Stack.carries, Option.map_eq_some_iff] at ho
      rcases ho with ⟨_, hget, _⟩
      simp [Stack.known, hget]

/--
`fd` denotes the TCP stream at `a`.
-/
def denotes (s : Stack) (fd : Int) (a : Addr) : Bool :=
  match getHostinfoFromfd s fd with
  | some (.stream b st) => b == a && st.protocol == ipprotoTcp
  | _ => false

theorem denotes_iff {s : Stack} {fd : Int} {a : Addr}
    : denotes s fd a = true
        ↔ ∃ st, getHostinfoFromfd s fd = some (.stream a st) ∧ st.protocol = ipprotoTcp := by
  unfold denotes
  split
  . next b st hinfo =>
    rw [hinfo]
    simp only [Bool.and_eq_true, beq_iff_eq, Option.some.injEq, Hostinfo.stream.injEq]
    constructor
    . rintro ⟨rfl, hproto⟩
      exact ⟨st, ⟨rfl, rfl⟩, hproto⟩
    . rintro ⟨_, ⟨rfl, rfl⟩, hproto⟩
      exact ⟨rfl, hproto⟩
  . next hinfo =>
    simp only [Bool.false_eq_true, false_iff, not_exists, not_and]
    exact fun st hinfo' => absurd hinfo' (hinfo a st)

theorem denotes_eq_false {s : Stack} {fd : Int} {a b : Addr} {st : NgTcpStream}
    (hinfo : getHostinfoFromfd s fd = some (.stream b st)) (hne : a ≠ b)
    : denotes s fd a = false := by
  rw [← Bool.not_eq_true, denotes_iff]
  rintro ⟨_, hinfo', _⟩
  rw [hinfo] at hinfo'
  cases hinfo'
  exact hne rfl

theorem EpMoved.fd_eq {ep1 ep2 : Option Eventpoll} (h : EpMoved ep1 ep2)
    : ep2.map Eventpoll.fd = ep1.map Eventpoll.fd := by
  induction h with
  | same _ => rfl
  | signalled h => simp [h.fd_eq]
  | popped h => simp [h.fd_eq]
  | trans _ _ ih1 ih2 => exact ih2.trans ih1

theorem carries_congr {s s' : Stack} (hhost : s'.lhost = s.lhost)
    (hstream : ∀ a, (s'.stream? a).map NgTcpStream.fd = (s.stream? a).map NgTcpStream.fd)
    (hep : s'.table.ep.map Eventpoll.fd = s.table.ep.map Eventpoll.fd) : s'.carries = s.carries := by
  funext o
  cases o with
  | host a => rw [Stack.carries, Stack.carries, hhost]
  | stream a => exact hstream a
  | poll => exact hep

theorem carries_of_sameHosts {s s' : Stack} (h : SameHosts s s') : s'.carries = s.carries := by
  funext o
  cases o with
  | host a =>
    have := congrArg (Option.map Prod.fst) (h.hosts a)
    rw [Option.map_map, Option.map_map] at this
    exact this
  | stream a => rw [Stack.carries, Stack.carries, stream?_congr h.table_eq]
  | poll => rw [Stack.carries, Stack.carries, h.table_eq]

theorem carries_modifyStream {s : Stack} {b : Addr} {st : NgTcpStream} {f : NgTcpStream → NgTcpStream}
    (hst : s.stream? b = some st) (hf : (f st).fd = st.fd)
    : (s.modifyStream b f).carries = s.carries := by
  refine carries_congr rfl ?_ rfl
  intro a
  rw [stream?_modifyStream]
  split
  . next heq =>
    rw [heq, hst]
    simp [hf]
  . rfl

theorem carries_afterSegment {s : Stack} {b : Addr} {st st' : NgTcpStream} {ep : Option Eventpoll}
    (hst : s.stream? b = some st) (hfd : st'.fd = st.fd) (hep : EpMoved s.table.ep ep)
    : (s.afterSegment b st' ep).carries = s.carries := by
  refine carries_congr rfl ?_ hep.fd_eq
  intro a
  rw [stream?_afterSegment ep hst]
  split
  . next heq =>
    rw [heq, hst]
    simp [hfd]
  . rfl

theorem carries_setEp {s : Stack} {ep ep' : Eventpoll} (hep : s.table.ep = some ep)
    (hfd : ep'.fd = ep.fd) : (s.setEp ep').carries = s.carries := by
  refine carries_congr rfl (fun _ => rfl) ?_
  simp [Stack.setEp, hep, hfd]

theorem carries_update {s s' : Stack} {o : Obj} {v : Option Int} (ho : s'.carries o = v)
    (hne : ∀ o', o' ≠ o → s'.carries o' = s.carries o')
    : s'.carries = Function.update s.carries o v := by
  funext o'
  by_cases heq : o' = o
  . rw [heq, Function.update_self, ho]
  . rw [Function.update_of_ne heq, hne o' heq]

theorem carries_addHost {s s' : Stack} {host : Localhost} (hlhost : s'.lhost = s.lhost.add host)
    (htable : s'.table = s.table)
    : s'.carries = Function.update s.carries (.host s.lhost.next) (some host.fd) := by
  apply carries_update
  . simp [Stack.carries, hlhost]
  . intro o hne
    cases o with
    | host a =>
      have : a ≠ s.lhost.next := fun heq => hne (by rw [heq])
      rw [Stack.carries, hlhost, ObjList.get?_add, if_neg this, Stack.carries]
    | stream a => rw [Stack.carries, Stack.carries, stream?_congr htable]
    | poll => rw [Stack.carries, Stack.carries, htable]

theorem carries_removeHost {s s' : Stack} {a : Addr} (hlhost : s'.lhost = s.lhost.remove a)
    (htable : s'.table = s.table) : s'.carries = Function.update s.carries (.host a) none := by
  apply carries_update
  . simp [Stack.carries, hlhost]
  . intro o hne
    cases o with
    | host b =>
      have : b ≠ a := fun heq => hne (by rw [heq])
      rw [Stack.carries, hlhost, ObjList.get?_remove_of_ne _ this, Stack.carries]
    | stream b => rw [Stack.carries, Stack.carries, stream?_congr htable]
    | poll => rw [Stack.carries, Stack.carries, htable]

theorem carries_updateStream {s s' : Stack} {a : Addr} {v : Option NgTcpStream}
    (hlhost : s'.lhost = s.lhost) (hep : s'.table.ep = s.table.ep)
    (hget : ∀ b, s'.stream? b = if b = a then v else s.stream? b)
    : s'.carries = Function.update s.carries (.stream a) (v.map NgTcpStream.fd) := by
  apply carries_update
  . rw [Stack.carries, hget, if_pos rfl]
  . intro o hne
    cases o with
    | host b => rw [Stack.carries, Stack.carries, hlhost]
    | stream b =>
      have : b ≠ a := fun heq => hne (by rw [heq])
      rw [Stack.carries, hget, if_neg this, Stack.carries]
    | poll => rw [Stack.carries, Stack.carries, hep]

theorem carries_addStream {s s' : Stack} {st : NgTcpStream} {fd : Int} (hlhost : s'.lhost = s.lhost)
    (hep : s'.table.ep = s.table.ep) (hset : s'.table.tcbSet = s.table.tcbSet.add st)
    (hfd : st.fd = fd)
    : s'.carries = Function.update s.carries (.stream s.table.tcbSet.next) (some fd) := by
  rw [← hfd]
  apply carries_updateStream (v := some st) hlhost hep
  intro b
  rw [Stack.stream?, hset, ObjList.get?_add, Stack.stream?]

theorem carries_removeStream {s s' : Stack} {a : Addr} (hlhost : s'.lhost = s.lhost)
    (hep : s'.table.ep = s.table.ep) (hset : s'.table.tcbSet = s.table.tcbSet.remove a)
    : s'.carries = Function.update s.carries (.stream a) none := by
  apply carries_updateStream (v := none) hlhost hep
  intro b
  rw [Stack.stream?, hset, ObjList.get?_remove, Stack.stream?]

theorem carries_acceptStream {s s' : Stack} {a : Addr} {st : NgTcpStream}
    {f : NgTcpStream → NgTcpStream} {fd : Int} (hlhost : s'.lhost = s.lhost)
    (hep : s'.table.ep = s.table.ep) (hset : s'.table.tcbSet = s.table.tcbSet.modify a f)
    (hst : s.stream? a = some st) (hfd : (f st).fd = fd)
    : s'.carries = Function.update s.carries (.stream a) (some fd) := by
  rw [← hfd]
  apply carries_updateStream (v := some (f st)) hlhost hep
  intro b
  rw [Stack.stream?, hset, ObjList.get?_modify]
  split
  . next heq =>
    rw [heq, ← Stack.stream?, hst]
    rfl
  . rfl

theorem carries_setPoll {s s' : Stack} {ep : Eventpoll} (hlhost : s'.lhost = s.lhost)
    (htable : s'.table = { s.table with ep := some ep })
    : s'.carries = Function.update s.carries .poll (some ep.fd) := by
  apply carries_update
  . simp [Stack.carries, htable]
  . intro o hne
    cases o with
    | host b => rw [Stack.carries, Stack.carries, hlhost]
    | stream b => simp [Stack.carries, Stack.stream?, htable]
    | poll => contradiction

theorem StreamStep.protocol {s : Stack} {a : Addr} {act : Act} {frames : List NgTcpFragment}
    {o o' : Option NgTcpStream} (h : StreamStep s a act frames o o')
    (ho : ∀ st, o = some st → st.protocol = ipprotoTcp)
    : ∀ st, o' = some st → st.protocol = ipprotoTcp := by
  intro st hst
  cases h with
  | same _ => exact ho st hst
  | opened _ hproto _ _ _ _ _ =>
    rw [← Option.some.inj hst]
    exact hproto
  | halfOpen _ hcreate _ =>
    rw [← Option.some.inj hst]
    exact hcreate.protocol
  | synAck _ hcreate _ _ =>
    rw [← Option.some.inj hst]
    exact hcreate.protocol
  | @segment _ _ st1 _ _ _ _ _ _ h =>
    rw [← Option.some.inj hst]
    rcases h.stream with ⟨_, _, _, _, _, rfl⟩
    exact ho st1 rfl
  | @out _ _ st1 _ _ h =>
    rw [← Option.some.inj hst]
    cases h <;> exact ho st1 rfl
  | removed | lastAck => contradiction
  | bound | listened | accepted | sent | read | fin | handshake =>
    have hold := ho _ rfl
    rw [← Option.some.inj hst]
    exact hold

theorem protocol_of_run {tr : List Step} {t : Stack} (h : Run .init tr t)
    : ∀ a st, t.stream? a = some st → st.protocol = ipprotoTcp := by
  apply Machine.Run.invariant (I := fun t => ∀ a st, t.stream? a = some st
    → st.protocol = ipprotoTcp) h
  . intro a st hst
    contradiction
  . intro t act o u hI hstep a st hst
    exact (streamStep_of_step hstep a).protocol (hI a) st hst

/-- No list gives an address back, and the table never loses its event poll. -/
theorem known_of_stepped {s s' : Stack} {act : Act} {out : Out} (h : Stepped s act out s') {o : Obj}
    (ho : s.known o) : s'.known o := by
  -- Addresses are given out in turn, so it is enough that the next one never goes down.
  have hmono {s' : Stack} (hhost : s.lhost.next ≤ s'.lhost.next)
      (hstream : s.table.tcbSet.next ≤ s'.table.tcbSet.next)
      (hep : s.table.ep.isSome → s'.table.ep.isSome) : s'.known o := by
    cases o with
    | host a => exact Nat.lt_of_lt_of_le ho hhost
    | stream a => exact Nat.lt_of_lt_of_le ho hstream
    | poll => exact hep ho
  have hsame {s' : Stack} (h : SameHosts s s') : s'.known o := by
    apply hmono
    . rw [h.next]
    . rw [h.table_eq]
    . rw [h.table_eq]
      exact id
  cases h with
  | nsocket h =>
    cases h with
    | failed _ _ => exact ho
    | host _ _ _ _ => exact hmono (Nat.le_succ _) (Nat.le_refl _) id
    | stream _ _ _ _ _ _ => exact hmono (Nat.le_refl _) (Nat.le_succ _) id
  | nbind h =>
    cases h with
    | host h => exact hsame h
    | same | stream => exact ho
  | nlisten h => rcases h with rfl | ⟨_, _, _, rfl⟩ <;> exact ho
  | naccept h => cases h <;> exact ho
  | nsend h => cases h <;> exact ho
  | nrecv h => rcases nrecv_cases h with ⟨rfl, _⟩ | ⟨_, _, _, _, _, _, _, _, rfl⟩ <;> exact ho
  | nclose h => cases h <;> exact ho
  | nepollCreate h =>
    cases h with
    | refused | noMemory => exact ho
    | installed => exact hmono (Nat.le_refl _) (Nat.le_refl _) (fun _ => rfl)
  | nepollCtl h =>
    cases h with
    | same => exact ho
    | add | del | mod => exact hmono (Nat.le_refl _) (Nat.le_refl _) (fun _ => rfl)
  | nepollWait h =>
    rcases h with ⟨rfl, _⟩ | ⟨_, _, _, _, _, rfl⟩
    . exact ho
    . exact hmono (Nat.le_refl _) (Nat.le_refl _) (fun _ => rfl)
  | epollEventCallback => exact hmono (Nat.le_refl _) (Nat.le_refl _) (fun _ => rfl)
  | ngArpEntryInsert => exact ho
  | ngTcpProcess h =>
    cases h with
    | ignored | lastAck => exact ho
    | halfOpen | synAck => exact hmono (Nat.le_refl _) (Nat.le_succ _) id
    | handshake => exact hmono (Nat.le_refl _) (Nat.le_refl _) (fun _ => rfl)
    | segment _ _ _ h =>
      refine hmono (Nat.le_refl _) (Nat.le_refl _) ?_
      intro hsome
      have := h.epMoved.fd_eq
      rw [← Option.isSome_map (f := Eventpoll.fd), ← this, Option.isSome_map] at hsome
      exact hsome
  | ngTcpOut h =>
    rw [h.rest]
    exact hmono (Nat.le_refl _) (Nat.le_of_eq h.next.symm) id
  | nsendto h | nrecvfrom h | udpProcess h | udpOut h => exact hsame h

theorem known_of_run {s t : Stack} {tr : List Step} (h : Run s tr t) {o : Obj} (ho : s.known o)
    : t.known o :=
  h.invariant ho (fun ho hstep => known_of_stepped (stepped_of_step hstep) ho)

theorem known_of_stream? {s : Stack} {a : Addr} {st : NgTcpStream} (hst : s.stream? a = some st)
    : s.known (.stream a) :=
  ObjList.lt_next_of_get? hst

theorem stream?_before {s s' : Stack} {act : Act} {out : Out} {a : Addr} {st' : NgTcpStream}
    (hknown : s.known (.stream a)) (hstep : machine.step s act = .ok (s', out))
    (hst' : s'.stream? a = some st') : ∃ st, s.stream? a = some st := by
  have hstream := streamStep_of_step hstep a
  rw [hst'] at hstream
  generalize framesOf a out.tcpFrames = frames at hstream
  cases hst : s.stream? a with
  | some st => exact ⟨st, rfl⟩
  | none =>
    rw [hst] at hstream
    cases hstream with
    | opened _ _ _ _ _ _ hnew | halfOpen _ _ hnew | synAck _ _ _ hnew =>
      exact absurd hnew (Nat.ne_of_lt hknown)

theorem stream?_earlier {s t : Stack} {tr : List Step} {a : Addr} {st' : NgTcpStream}
    (h : Run s tr t) (hknown : s.known (.stream a)) (hst' : t.stream? a = some st')
    : ∃ st, s.stream? a = some st := by
  induction h generalizing st' with
  | nil => exact ⟨st', hst'⟩
  | snoc h hstep ih =>
    rcases stream?_before (known_of_run h hknown) hstep hst' with ⟨st1, hst1⟩
    exact ih hst1

end NgStack
