import DpdkLearning.Stack.Lemmas.Descriptors
import DpdkLearning.Stack.Lemmas.FdTable

/-!
This module contains the listening socket of a server: it keeps its descriptor, and nobody else gets it,
until it is closed.
-/

open Lib

namespace NgStack

/-- A descriptor other than 7, whose bit stands in for descriptor -1, stays taken until it is closed. -/
theorem fdUsed_of_stepped {s s' : Stack} {act : Act} {out : Out} (h : Stepped s act out s') {e : Nat}
    (hhost : ∀ a, s.lhost.get? a = none) (hfd : ∀ a st, s.stream? a = some st → -1 ≤ st.fd)
    (hclose : ∀ env, act ≠ .nclose env e) (hne : e ≠ 7) (he : fdUsed s.fdTable e)
    : fdUsed s'.fdTable e := by
  have htaken := fdTaken_getFdFrombitmap s.fdTable
  have hsame {s' : Stack} (h : SameHosts s s') : fdUsed s'.fdTable e := by
    rcases h.rest with ⟨_, _, rfl⟩
    exact he
  cases h with
  | nsocket h => cases h <;> exact used_of_taken htaken he
  | nbind h =>
    cases h with
    | host h => exact hsame h
    | same | stream => exact he
  | nlisten h => rcases h with rfl | ⟨_, _, _, rfl⟩ <;> exact he
  | naccept h =>
    cases h with
    | failed _ => exact he
    | accepted _ _ => exact used_of_taken htaken he
  | nsend h => cases h <;> exact he
  | nrecv h => rcases nrecv_cases h with ⟨rfl, _⟩ | ⟨_, _, _, _, _, _, _, _, rfl⟩ <;> exact he
  | @nclose env fd _ _ h =>
    cases h with
    | same | listen => exact he
    | host hinfo =>
      have hget := (getHostinfoFromfd_host hinfo).1
      rw [hhost] at hget
      contradiction
    | @fin a st _ hinfo =>
      rcases getHostinfoFromfd_stream hinfo with ⟨hst, rfl⟩
      refine (fdUsed_setFdFrombitmap_iff s.fdTable st.fd e).mpr ⟨he, ?_⟩
      apply releasedFd_ne (hfd a st hst) hne
      rintro heq
      rw [heq] at hclose
      exact hclose env rfl
  | nepollCreate h =>
    cases h with
    | refused => exact he
    | installed => exact used_of_taken htaken he
    -- The descriptor is given back at once.
    | noMemory =>
      dsimp only
      refine (fdUsed_setFdFrombitmap_iff _ _ e).mpr ⟨used_of_taken htaken he, ?_⟩
      rcases free_of_taken htaken with hfull | ⟨n, hn, hfree⟩
      . exact releasedFd_ne (by omega) hne (by omega)
      . refine releasedFd_ne (by omega) hne ?_
        intro heq
        obtain rfl : n = e := by omega
        contradiction
  | nepollCtl h => cases h <;> exact he
  | nepollWait h => rcases h with ⟨rfl, _⟩ | ⟨_, _, _, _, _, rfl⟩ <;> exact he
  | epollEventCallback => exact he
  | ngArpEntryInsert => exact he
  | ngTcpProcess h => cases h <;> exact he
  | ngTcpOut h =>
    rw [h.rest]
    exact he
  | nsendto h | nrecvfrom h | udpProcess h | udpOut h => exact hsame h

theorem noHosts_of_stepped {s s' : Stack} {act : Act} {out : Out} (h : Stepped s act out s')
    (hact : ∀ env, act ≠ .nsocket env sockDgram) (hnone : ∀ a, s.lhost.get? a = none)
    : ∀ a, s'.lhost.get? a = none := by
  have hsame {s' : Stack} (h : SameHosts s s') : ∀ a, s'.lhost.get? a = none := by
    intro a
    have := h.hosts a
    rw [hnone a] at this
    simpa using this
  cases h with
  | nsocket h =>
    cases h with
    | host htype _ _ _ _ _ =>
      subst htype
      exact absurd rfl (hact _)
    | failed | stream => exact hnone
  | nbind h =>
    cases h with
    | host h => exact hsame h
    | same | stream => exact hnone
  | nlisten h => rcases h with rfl | ⟨_, _, _, rfl⟩ <;> exact hnone
  | naccept h => cases h <;> exact hnone
  | nsend h => cases h <;> exact hnone
  | nrecv h => rcases nrecv_cases h with ⟨rfl, _⟩ | ⟨_, _, _, _, _, _, _, _, rfl⟩ <;> exact hnone
  | nclose h =>
    cases h with
    | host hinfo =>
      have := (getHostinfoFromfd_host hinfo).1
      rw [hnone] at this
      contradiction
    | same | fin | listen => exact hnone
  | nepollCreate h => cases h <;> exact hnone
  | nepollCtl h => cases h <;> exact hnone
  | nepollWait h => rcases h with ⟨rfl, _⟩ | ⟨_, _, _, _, _, rfl⟩ <;> exact hnone
  | epollEventCallback => exact hnone
  | ngArpEntryInsert => exact hnone
  | ngTcpProcess h => cases h <;> exact hnone
  | ngTcpOut h =>
    rw [h.rest]
    exact hnone
  | nsendto h | nrecvfrom h | udpProcess h | udpOut h => exact hsame h

theorem SameHosts.host {s s' : Stack} (h : SameHosts s s') {a : Addr} {host : Localhost}
    (hhost : s.lhost.get? a = some host) : ∃ host', s'.lhost.get? a = some host' ∧ host'.fd = host.fd := by
  have := h.hosts a
  rw [hhost, Option.map_some, Option.map_eq_some_iff] at this
  rcases this with ⟨host', hhost', heq⟩
  exact ⟨host', hhost', (Prod.mk.inj heq).1⟩

theorem host_of_stepped {s s' : Stack} {act : Act} {out : Out} (h : Stepped s act out s') {fd : Int}
    (hclose : ∀ env, act ≠ .nclose env fd) {a : Addr} {host : Localhost}
    (hhost : s.lhost.get? a = some host) (hfd : host.fd = fd)
    : ∃ host', s'.lhost.get? a = some host' ∧ host'.fd = fd := by
  subst hfd
  cases h with
  | nsocket h =>
    cases h with
    | failed | stream => exact ⟨host, hhost, rfl⟩
    | host => exact ⟨host, ObjList.get?_add_of_get? _ hhost, rfl⟩
  | nbind h =>
    cases h with
    | host h => exact h.host hhost
    | same | stream => exact ⟨host, hhost, rfl⟩
  | nlisten h => rcases h with rfl | ⟨_, _, _, rfl⟩ <;> exact ⟨host, hhost, rfl⟩
  | naccept h => cases h <;> exact ⟨host, hhost, rfl⟩
  | nsend h => cases h <;> exact ⟨host, hhost, rfl⟩
  | nrecv h =>
    rcases nrecv_cases h with ⟨rfl, _⟩ | ⟨_, _, _, _, _, _, _, _, rfl⟩ <;> exact ⟨host, hhost, rfl⟩
  | nclose h =>
    cases h with
    | same | fin | listen => exact ⟨host, hhost, rfl⟩
    | host hinfo =>
      refine ⟨host, ?_, rfl⟩
      rcases getHostinfoFromfd_host hinfo with ⟨hb, hfd⟩
      refine (ObjList.get?_remove_of_ne _ ?_).trans hhost
      rintro rfl
      rw [hhost, Option.some.injEq] at hb
      subst hb
      rw [hfd] at hclose
      exact hclose _ rfl
  | nepollCreate h => cases h <;> exact ⟨host, hhost, rfl⟩
  | nepollCtl h => cases h <;> exact ⟨host, hhost, rfl⟩
  | nepollWait h => rcases h with ⟨rfl, _⟩ | ⟨_, _, _, _, _, rfl⟩ <;> exact ⟨host, hhost, rfl⟩
  | epollEventCallback => exact ⟨host, hhost, rfl⟩
  | ngArpEntryInsert => exact ⟨host, hhost, rfl⟩
  | ngTcpProcess h => cases h <;> exact ⟨host, hhost, rfl⟩
  | ngTcpOut h =>
    rw [h.rest]
    exact ⟨host, hhost, rfl⟩
  | nsendto h | nrecvfrom h | udpProcess h | udpOut h => exact h.host hhost

theorem StreamStep.fd_cases {s : Stack} {a : Addr} {act : Act} {frames : List NgTcpFragment}
    {o : Option NgTcpStream} {st' : NgTcpStream} (h : StreamStep s a act frames o (some st'))
    : st'.fd = -1
      ∨ st'.fd = (getFdFrombitmap s.fdTable).1
        ∧ ((∃ env type, act = .nsocket env type) ∨ ∃ sockfd, act = .naccept sockfd)
      ∨ ∃ st, o = some st ∧ st'.fd = st.fd := by
  cases h with
  | same _ => exact .inr (.inr ⟨st', rfl, rfl⟩)
  | opened hact _ _ _ _ hfd _ => exact .inr (.inl ⟨hfd, .inl ⟨_, _, hact⟩⟩)
  | halfOpen _ hcreate _ => exact .inl hcreate.fd
  | synAck _ hcreate _ _ => exact .inl hcreate.fd
  | accepted hact _ _ => exact .inr (.inl ⟨rfl, .inr ⟨_, hact⟩⟩)
  | segment _ _ _ _ h => exact .inr (.inr ⟨_, rfl, h.fd_eq⟩)
  | out _ h => exact .inr (.inr ⟨_, rfl, h.fd_eq⟩)
  | bound | listened | sent | read | fin | handshake => exact .inr (.inr ⟨_, rfl, rfl⟩)

theorem StreamStep.socket {s : Stack} {a : Addr} {act : Act} {frames : List NgTcpFragment}
    {st : NgTcpStream} {o : Option NgTcpStream} (h : StreamStep s a act frames (some st) o)
    (hstatus : st.status = .closed ∨ st.status = .listen) (hneg : st.fd ≠ -1)
    (hclose : ∀ env, act ≠ .nclose env st.fd)
    : ∃ st', o = some st' ∧ st'.fd = st.fd ∧ st'.sip = st.sip
        ∧ (st'.status = .closed ∨ st'.status = .listen) := by
  generalize hold : some st = old at h
  cases h with
  | same _ => exact ⟨st, hold.symm, rfl, rfl, hstatus⟩
  | opened | halfOpen | synAck => contradiction
  | bound _ _ =>
    cases hold
    exact ⟨_, rfl, rfl, rfl, .inl rfl⟩
  | listened _ _ =>
    cases hold
    exact ⟨_, rfl, rfl, rfl, .inr rfl⟩
  | sent _ _ _ | read _ _ _ =>
    cases hold
    exact ⟨_, rfl, rfl, rfl, hstatus⟩
  -- `naccept` takes streams without a descriptor only.
  | accepted _ _ hfind =>
    cases hold
    exact absurd (getAcceptTcb_some hfind).2.2 hneg
  | fin hact hfd =>
    cases hold
    subst hfd
    exact absurd hact (hclose _)
  | removed hact hfd _ =>
    cases hold
    subst hfd
    exact absurd hact (hclose _)
  | handshake _ _ _ hstatus' _ | segment _ _ _ hstatus' _ | lastAck _ _ _ hstatus' _ =>
    cases hold
    simp [hstatus'] at hstatus
  | out _ h =>
    cases hold
    cases h <;> exact ⟨_, rfl, rfl, rfl, hstatus⟩

theorem fd_before {s s' : Stack} {act : Act} {out : Out} {b : Addr} {st' : NgTcpStream}
    (hstep : machine.step s act = .ok (s', out)) (hst' : s'.stream? b = some st')
    (hused : ∃ n : Nat, st'.fd = n ∧ fdUsed s.fdTable n)
    : ∃ st, s.stream? b = some st ∧ st.fd = st'.fd := by
  have hstream := streamStep_of_step hstep b
  rw [hst'] at hstream
  rcases hused with ⟨n, hn, hused⟩
  rcases hstream.fd_cases with hneg | ⟨hnew, _⟩ | ⟨st, hst, heq⟩
  . omega
  . rcases free_of_taken (fdTaken_getFdFrombitmap s.fdTable) with hfull | ⟨k, hk, hfree⟩
    . omega
    . obtain rfl : k = n := by omega
      contradiction
  . exact ⟨st, hst, heq.symm⟩

theorem fd_ge_of_step {s s' : Stack} {act : Act} {out : Out}
    (hstep : machine.step s act = .ok (s', out)) (hfd : ∀ a st, s.stream? a = some st → -1 ≤ st.fd)
    : ∀ a st', s'.stream? a = some st' → -1 ≤ st'.fd := by
  intro a st' hst'
  have hstream := streamStep_of_step hstep a
  rw [hst'] at hstream
  rcases hstream.fd_cases with hneg | ⟨hnew, _⟩ | ⟨st, hst, heq⟩
  . omega
  . rcases free_of_taken (fdTaken_getFdFrombitmap s.fdTable) with hfull | ⟨n, hn, _⟩ <;> omega
  . rw [heq]
    exact hfd a st hst

/--
The stream at `l` listens, or is about to, and is the only one with its descriptor, the first that is given
out.
-/
structure Listening (s : Stack) (fd : Int) (l : Addr) : Prop where
  first : fd = defaultFdNum
  taken : fdUsed s.fdTable defaultFdNum
  stream : ∃ st, s.stream? l = some st ∧ st.fd = fd ∧ (st.status = .closed ∨ st.status = .listen)
  only : ∀ b st, s.stream? b = some st → st.fd = fd → b = l

namespace Listening

variable {s s' : Stack} {fd : Int} {l : Addr}

theorem used (h : Listening s fd l) : ∃ n : Nat, fd = n ∧ fdUsed s.fdTable n :=
  ⟨defaultFdNum, h.first, h.taken⟩

theorem ne_neg_one (h : Listening s fd l) : fd ≠ -1 := by
  rcases h.used with ⟨n, rfl, _⟩
  omega

theorem getHostinfoFromfd_eq (h : Listening s fd l) (hhost : ∀ a, s.lhost.get? a = none)
    : ∃ st, getHostinfoFromfd s fd = some (.stream l st) := by
  rcases h.stream with ⟨st, hst, rfl, _⟩
  rcases exists_getHostinfoFromfd_stream hhost hst with ⟨b, st', hinfo⟩
  rcases getHostinfoFromfd_stream hinfo with ⟨hst', hfd⟩
  have := h.only b st' hst' hfd
  subst this
  exact ⟨st', hinfo⟩

theorem of_step {act : Act} {out : Out} (h : Listening s fd l)
    (hstep : machine.step s act = .ok (s', out)) (hhost : ∀ a, s.lhost.get? a = none)
    (hfd : ∀ a st, s.stream? a = some st → -1 ≤ st.fd) (hclose : ∀ env, act ≠ .nclose env fd)
    : Listening s' fd l := by
  constructor
  . exact h.first
  . rw [h.first] at hclose
    exact fdUsed_of_stepped (stepped_of_step hstep) hhost hfd hclose (by decide) h.taken
  . rcases h.stream with ⟨st, hst, rfl, hstatus⟩
    have hstream := streamStep_of_step hstep l
    rw [hst] at hstream
    rcases hstream.socket hstatus h.ne_neg_one hclose with ⟨st', hst', hfd, _, hstatus'⟩
    exact ⟨st', hst', hfd, hstatus'⟩
  . intro b st' hst' hfd
    subst hfd
    rcases fd_before hstep hst' h.used with ⟨st, hst, hfd⟩
    exact h.only b st hst hfd

end Listening

theorem listening_of_nsocket {env : Env} {s s' : Stack} {r : Int}
    (h : NsocketDone env s sockStream (r, s')) (hfd : ∀ a st, s.stream? a = some st → st.fd = -1)
    (hfree : ∀ e, ¬fdUsed s.fdTable e) (hret : r ≠ -1) : ∃ l, Listening s' r l := by
  cases h with
  | failed _ hneg => exact absurd hneg hret
  | host htype => exact absurd htype (by decide)
  | @stream st names _ hnew _ hstatus _ _ =>
    rcases getFdFrombitmap_of_free hfree with ⟨hfirst, htaken⟩
    refine ⟨s.table.tcbSet.next, hfirst, htaken, ?_, ?_⟩
    . exact ⟨st, ObjList.get?_add_self _ _, hnew, .inl hstatus⟩
    . intro b st' hst' heq
      rw [Stack.stream?, ObjList.get?_add] at hst'
      split at hst'
      . next hb => exact hb
      . exact absurd (heq.symm.trans (hfd b st' hst')) hret

end NgStack
