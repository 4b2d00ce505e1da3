import DpdkLearning.Stack.Lemmas.Listening

/-!
This module contains what `ng_tcp_stream_search` finds: there is at most one stream for the addresses and
ports of a connection, none of them listens, and a segment goes to it before it goes to a listener.
-/

open Lib

namespace NgStack

def NgTcpStream.tuple (st : NgTcpStream) : UInt32 × UInt32 × UInt16 × UInt16 :=
  (st.sip, st.dip, st.sport, st.dport)

/--
The connections in the table, and the stream a search for a segment ends at.
-/
structure Demultiplexed (s : Stack) : Prop where
  unique : ∀ a b st st', s.stream? a = some st → s.stream? b = some st' → st.sip ≠ 0
    → st'.tuple = st.tuple → a = b
  connected : ∀ a st, s.stream? a = some st → st.sip ≠ 0 → st.status ≠ .listen
  found : ∀ a st, s.stream? a = some st → st.sip ≠ 0
    → ngTcpStreamSearch s st.sip st.dip st.sport st.dport = some (a, st)
  listener : ∀ sip dip sport dport, (∀ a st, s.stream? a = some st → st.tuple ≠ (sip, dip, sport, dport))
    → (∃ a st, s.stream? a = some st ∧ st.status = .listen ∧ st.dport = dport)
    → ∃ a st, ngTcpStreamSearch s sip dip sport dport = some (a, st) ∧ st.status = .listen
        ∧ st.dport = dport
  none : ∀ sip dip sport dport, (∀ a st, s.stream? a = some st → st.tuple ≠ (sip, dip, sport, dport))
    → (∀ a st, s.stream? a = some st → st.status = .listen → st.dport ≠ dport)
    → ngTcpStreamSearch s sip dip sport dport = none

theorem ngTcpStreamSearch_of_no_tuple {s : Stack} {sip dip : UInt32} {sport dport : UInt16}
    (h : ∀ a st, s.stream? a = some st → st.tuple ≠ (sip, dip, sport, dport))
    : ngTcpStreamSearch s sip dip sport dport
        = s.table.tcbSet.find? (fun iter => iter.dport == dport && iter.status == .listen) := by
  have hnone : s.table.tcbSet.find? (fun iter =>
      iter.sip == sip && iter.dip == dip && iter.sport == sport && iter.dport == dport) = none := by
    rw [ObjList.find?_eq_none_iff]
    intro a st hst
    specialize h a st hst
    rw [← Bool.not_eq_true]
    intro heq
    apply h
    simp only [Bool.and_eq_true, beq_iff_eq] at heq
    rw [NgTcpStream.tuple, heq.1.1.1, heq.1.1.2, heq.1.2, heq.2]
  unfold ngTcpStreamSearch
  rw [hnone]

/-- Uniqueness is all that it takes. -/
theorem demultiplexed_of_unique {s : Stack}
    (hunique : ∀ a b st st', s.stream? a = some st → s.stream? b = some st' → st.sip ≠ 0
      → st'.tuple = st.tuple → a = b)
    (hconnected : ∀ a st, s.stream? a = some st → st.sip ≠ 0 → st.status ≠ .listen)
    : Demultiplexed s := by
  refine ⟨hunique, hconnected, ?_, ?_, ?_⟩
  . intro a st hst hsip
    have hfind : s.table.tcbSet.find? (fun iter => iter.sip == st.sip && iter.dip == st.dip
        && iter.sport == st.sport && iter.dport == st.dport) = some (a, st) := by
      rw [ObjList.find?_eq_some_iff]
      refine ⟨hst, by simp, ?_⟩
      intro b st' hst' heq
      simp only [Bool.and_eq_true, beq_iff_eq] at heq
      -- The search ends at the newest match, and there is one only.
      apply Nat.le_of_eq
      symm
      apply hunique a b st st' hst hst' hsip
      simp [NgTcpStream.tuple, heq]
    unfold ngTcpStreamSearch
    rw [hfind]
  . rintro sip dip sport dport hno ⟨b, st', hst', hlisten, hdport⟩
    rw [ngTcpStreamSearch_of_no_tuple hno]
    cases hfind : s.table.tcbSet.find? (fun iter => iter.dport == dport && iter.status == .listen) with
    | none =>
      rw [ObjList.find?_eq_none_iff] at hfind
      specialize hfind b st' hst'
      simp [hlisten, hdport] at hfind
    | some found =>
      rcases found with ⟨a, st⟩
      have hpass := ObjList.find?_some hfind
      simp only [Bool.and_eq_true, beq_iff_eq] at hpass
      exact ⟨a, st, rfl, hpass.2, hpass.1⟩
  . intro sip dip sport dport hno hlisten
    rw [ngTcpStreamSearch_of_no_tuple hno, ObjList.find?_eq_none_iff]
    intro a st hst
    specialize hlisten a st hst
    rw [← Bool.not_eq_true]
    intro heq
    simp only [Bool.and_eq_true, beq_iff_eq] at heq
    exact hlisten heq.2 heq.1

/--
The descriptor belongs to a socket: to a datagram socket, or to a stream without a peer before all other
streams with this descriptor.
-/
structure Opened (s : Stack) (fd : Int) : Prop where
  used : ∃ n : Nat, fd = n ∧ fdUsed s.fdTable n
  socket : (∃ a host, s.lhost.get? a = some host ∧ host.fd = fd)
    ∨ ∃ l st, s.stream? l = some st ∧ st.fd = fd ∧ st.sip = 0
        ∧ (st.status = .closed ∨ st.status = .listen)
        ∧ ∀ b st', s.stream? b = some st' → st'.fd = fd → b ≤ l

namespace Opened

variable {s s' : Stack} {fd : Int}

theorem of_nsocket {env : Env} {type : Int} (h : NsocketDone env s type (fd, s')) (hpos : 0 ≤ fd)
    (htype : (socketRings type).isSome = true) : Opened s' fd := by
  cases h with
  | failed _ hret =>
    rw [htype] at hret
    simp only [if_true] at hret
    omega
  | @host host _ _ _ hfd =>
    refine ⟨used_getFdFrombitmap (by omega), .inl ⟨s.lhost.next, host, ?_, hfd⟩⟩
    apply ObjList.get?_add_self
  | @stream st _ _ hfd _ hstatus _ _ hsip =>
    refine ⟨used_getFdFrombitmap (by omega), .inr ⟨s.table.tcbSet.next, st, ?_, hfd, hsip, .inl hstatus, ?_⟩⟩
    . apply ObjList.get?_add_self
    . intro b st' hst' _
      have := ObjList.lt_next_of_get? hst'
      apply Nat.le_of_lt_succ
      exact this

theorem of_step {act : Act} {out : Out} (h : Opened s fd)
    (hstep : machine.step s act = .ok (s', out)) (hclose : ∀ env, act ≠ .nclose env fd)
    (hused : fdUsed s'.fdTable fd.toNat) : Opened s' fd := by
  constructor
  . rcases h.used with ⟨n, rfl, _⟩
    exact ⟨n, rfl, hused⟩
  . rcases h.socket with ⟨a, host, hhost, hfd⟩ | ⟨l, st, hst, rfl, hsip, hstatus, hnewest⟩
    . left
      rcases host_of_stepped (stepped_of_step hstep) hclose hhost hfd with ⟨host', hhost', hfd'⟩
      exact ⟨a, host', hhost', hfd'⟩
    . right
      have hstream := streamStep_of_step hstep l
      rw [hst] at hstream
      have hneg : st.fd ≠ -1 := by
        rcases h.used with ⟨n, hn, _⟩
        omega
      rcases hstream.socket hstatus hneg hclose with ⟨st', hst', hfd, hsip', hstatus'⟩
      refine ⟨l, st', hst', hfd, hsip'.trans hsip, hstatus', ?_⟩
      intro b old hb hold
      rw [← hold] at h hnewest
      rcases fd_before hstep hb h.used with ⟨old', hb', hold'⟩
      exact hnewest b old' hb' hold'

theorem sip_eq_zero {a : Addr} {st : NgTcpStream} (h : Opened s fd)
    (hinfo : getHostinfoFromfd s fd = some (.stream a st)) : st.sip = 0 := by
  unfold getHostinfoFromfd at hinfo
  split at hinfo
  . simp at hinfo
  . next hnone =>
    rw [ObjList.find?_eq_none_iff] at hnone
    rcases h.socket with ⟨b, host, hhost, hfd⟩ | ⟨l, st', hst', hfd, hsip, _, hnewest⟩
    . specialize hnone b host hhost
      simp [hfd] at hnone
    . split at hinfo
      . next b st1 hfind =>
        simp only [Option.some.injEq, Hostinfo.stream.injEq] at hinfo
        rcases hinfo with ⟨rfl, rfl⟩
        have hle := ObjList.le_of_find? hfind hst' (by simp [hfd])
        have hpass := ObjList.find?_some hfind
        rw [beq_iff_eq] at hpass
        have hge := hnewest b st1 (ObjList.get?_of_find? hfind) hpass.symm
        obtain rfl := Nat.le_antisymm hge hle
        rw [Stack.stream?, ObjList.get?_of_find? hfind, Option.some.injEq] at hst'
        rw [hst', hsip]
      . split at hinfo
        . contradiction
        . split at hinfo <;> simp at hinfo

end Opened

/--
The socket a call binds or makes listen.
-/
def bindsFd : Act → Option Int
  | .nbind sockfd _ _ => some sockfd
  | .nlisten sockfd => some sockfd
  | _ => none

def openedAsStep (fd : Int) (o : Option Int) (e : Step) : Option Int :=
  match e.act with
  | .nsocket _ type => if e.out.ret = fd ∧ 0 ≤ fd then some type else o
  | .nclose _ fd' => if fd' = fd then none else o
  | _ => o

/--
The type for which `nsocket` has handed out the descriptor, as long as it has not been closed since.
-/
def openedAs (tr : List Step) (fd : Int) : Option Int :=
  tr.foldl (openedAsStep fd) none

def heldAsStep (fd : Int) (o : Option Int) (e : Step) : Option Int :=
  if fdUsed e.post.fdTable fd.toNat then openedAsStep fd o e else none

/--
The same, as long as the bit of the descriptor has been set ever since.
-/
def heldAs (tr : List Step) (fd : Int) : Option Int :=
  tr.foldl (heldAsStep fd) none

/--
The calls and segments there may be: `nbind` and `nlisten` on descriptors that `nsocket` has handed out and
that are still open, segments with a source address, and memory for what they need.
-/
structure Permitted (tr : List Step) (e : Step) : Prop where
  socket : ∀ fd, bindsFd e.act = some fd → (openedAs tr fd).isSome = true
  segment : ∀ env m, e.act = .ngTcpProcess env m → m.ip.srcAddr ≠ 0 ∧ ∀ i, env.rteMalloc i = true

def denotesConnection (s : Stack) (fd : Int) : Bool :=
  match getHostinfoFromfd s fd with
  | some (.stream _ st) => st.sip != 0
  | _ => false

/--
A descriptor that `nsocket` has handed out for a type it makes no socket for, or whose bit has been cleared in
place of descriptor -1, is not bound and does not listen while a connection carries it.
-/
def demuxCond (tr : List Step) (e : Step) : Bool :=
  (bindsFd e.act).all (fun fd => (heldAs tr fd).any (fun type => (socketRings type).isSome)
    || !denotesConnection e.pre fd)

theorem opened_of_heldAs {tr : List Step} {t : Stack} (h : Run .init tr t)
    : ∀ fd type, heldAs tr fd = some type → (socketRings type).isSome = true → Opened t fd := by
  refine h.history (P := fun tr t => ∀ fd type, heldAs tr fd = some type
    → (socketRings type).isSome = true → Opened t fd) (by simp [heldAs]) ?_
  intro tr s act out s' _ ih hstep fd type hheld htype
  rw [heldAs, List.foldl_append, List.foldl_cons, List.foldl_nil, heldAsStep,
    Option.ite_none_right_eq_some] at hheld
  rcases hheld with ⟨hused, hopened⟩
  have hkeep : heldAs tr fd = some type → (∀ env, act ≠ .nclose env fd) → Opened s' fd :=
    fun hold hclose => (ih fd type hold htype).of_step hstep hclose hused
  unfold openedAsStep at hopened
  dsimp only at hopened
  split at hopened
  . next env type' =>
    split at hopened
    . next hret =>
      rw [Option.some.injEq] at hopened
      subst hopened
      have hdone := stepped_of_step hstep
      cases hdone with
      | nsocket hdone =>
        rcases hret with ⟨rfl, hpos⟩
        exact Opened.of_nsocket hdone hpos htype
    . exact hkeep hopened (by simp)
  . next env fd' =>
    split at hopened
    . contradiction
    . next hne => exact hkeep hopened (by simp [hne])
  . next hsocket hclose =>
    apply hkeep hopened
    intro env
    exact hclose env fd

theorem sip_eq_zero_of_cond {tr : List Step} {e : Step} (h : Run .init tr e.pre)
    (hcond : demuxCond tr e = true) {fd : Int} (hbinds : bindsFd e.act = some fd) {a : Addr}
    {st : NgTcpStream} (hinfo : getHostinfoFromfd e.pre fd = some (.stream a st)) : st.sip = 0 := by
  rw [demuxCond, hbinds, Option.all_some, Bool.or_eq_true, Option.any_eq_true] at hcond
  rcases hcond with ⟨type, hopened, htype⟩ | hnot
  . exact (opened_of_heldAs h fd type hopened htype).sip_eq_zero hinfo
  . simpa [denotesConnection, hinfo] using hnot

/--
At most one stream for each connection, and none of them listens.
-/
structure UniqueConnections (s : Stack) : Prop where
  unique : ∀ a b st st', s.stream? a = some st → s.stream? b = some st' → st.sip ≠ 0
    → st'.tuple = st.tuple → a = b
  connected : ∀ a st, s.stream? a = some st → st.sip ≠ 0 → st.status ≠ .listen

/-- A connection has been there before the step, or the segment is the first for its addresses and ports. -/
theorem StreamStep.of_connection {s : Stack} {a : Addr} {act : Act} {frames : List NgTcpFragment}
    {o : Option NgTcpStream} {st' : NgTcpStream} (h : StreamStep s a act frames o (some st'))
    (hsip : st'.sip ≠ 0)
    (hbinds : ∀ fd, bindsFd act = some fd → ∀ a st, getHostinfoFromfd s fd = some (.stream a st)
      → st.sip = 0)
    (hmalloc : ∀ env m, act = .ngTcpProcess env m → env.rteMalloc 1 = true)
    : (∃ st, o = some st ∧ st.tuple = st'.tuple ∧ (st.status ≠ .listen → st'.status ≠ .listen))
      ∨ ∃ env m l listener, act = .ngTcpProcess env m ∧ ngTcpStreamOf s m = some (l, listener)
          ∧ listener.status = .listen ∧ a = s.table.tcbSet.next ∧ st'.status = .synRcvd
          ∧ st'.tuple = (m.ip.srcAddr, m.ip.dstAddr, m.tcp.srcPort, m.tcp.dstPort) := by
  cases h with
  | same => exact .inl ⟨st', rfl, rfl, id⟩
  | opened _ _ _ _ _ _ _ hzero => contradiction
  | halfOpen hact _ _ _ _ _ _ hfailed =>
    rw [hmalloc _ _ hact] at hfailed
    contradiction
  | @synAck env m _ _ hact hcreate _ hnew l listener _ hfind hlisten =>
    right
    refine ⟨env, m, l, listener, hact, hfind, hlisten, hnew, rfl, ?_⟩
    simp only [NgTcpStream.tuple, hcreate.sip, hcreate.dip, hcreate.sport, hcreate.dport]
  -- Sockets are bound and listen, and they have no peer.
  | bound hact _ hinfo | listened hact _ hinfo =>
    subst hact
    exact absurd (hbinds _ rfl _ _ hinfo) hsip
  | accepted | sent | read => exact .inl ⟨_, rfl, rfl, id⟩
  | fin | handshake => exact .inl ⟨_, rfl, rfl, fun _ => by simp⟩
  | segment _ _ _ hstatus h =>
    left
    refine ⟨_, rfl, ?_, ?_⟩
    . rcases h.stream with ⟨_, _, _, _, _, rfl⟩
      rfl
    . intro _
      rcases h.status with hsame | hclose
      . simp [hsame, hstatus]
      . simp [hclose]
  | out _ h =>
    left
    cases h <;> exact ⟨_, rfl, rfl, id⟩

theorem UniqueConnections.of_step {s s' : Stack} {act : Act} {out : Out} (h : UniqueConnections s)
    (hstep : machine.step s act = .ok (s', out))
    (hbinds : ∀ fd, bindsFd act = some fd → ∀ a st, getHostinfoFromfd s fd = some (.stream a st)
      → st.sip = 0)
    (hsegment : ∀ env m, act = .ngTcpProcess env m
      → m.ip.srcAddr ≠ 0 ∧ ∀ i, env.rteMalloc i = true) : UniqueConnections s' := by
  have hcases {a : Addr} {st' : NgTcpStream} (hst' : s'.stream? a = some st') (hsip : st'.sip ≠ 0) :=
    StreamStep.of_connection (hst' ▸ streamStep_of_step hstep a) hsip hbinds
      (fun env m hact => (hsegment env m hact).2 1)
  -- The listener only gets the segment when no stream has its addresses and ports.
  have hfirst : ∀ env m l listener b st, act = .ngTcpProcess env m
      → ngTcpStreamOf s m = some (l, listener) → listener.status = .listen → s.stream? b = some st
      → st.tuple ≠ (m.ip.srcAddr, m.ip.dstAddr, m.tcp.srcPort, m.tcp.dstPort) := by
    intro env m l listener b st hact hfind hlisten hst heq
    simp only [NgTcpStream.tuple, Prod.mk.injEq] at heq
    rcases heq with ⟨hsip, hdip, hsport, hdport⟩
    have hne : st.sip ≠ 0 := by
      rw [hsip]
      exact (hsegment env m hact).1
    have hfound := (demultiplexed_of_unique h.unique h.connected).found b st hst hne
    rw [hsip, hdip, hsport, hdport] at hfound
    rw [ngTcpStreamOf, hfound, Option.some.injEq, Prod.mk.injEq] at hfind
    rcases hfind with ⟨_, rfl⟩
    exact h.connected b st hst hne hlisten
  constructor
  . intro a b st st' hst hst' hsip htuple
    have hsip' : st'.sip ≠ 0 := by
      rw [(Prod.mk.inj htuple).1]
      exact hsip
    rcases hcases hst hsip with ⟨old, hold, holdtuple, _⟩ | ⟨env, m, l, listener, hnew⟩
    . rcases hcases hst' hsip' with ⟨old', hold', holdtuple', _⟩ | ⟨env, m, l, listener, hnew'⟩
      . apply h.unique a b old old' hold hold'
        . rw [(Prod.mk.inj holdtuple).1]
          exact hsip
        . rw [holdtuple', holdtuple, htuple]
      . rcases hnew' with ⟨hact, hfind, hlisten, _, _, hm⟩
        refine absurd ?_ (hfirst env m l listener a old hact hfind hlisten hold)
        rw [holdtuple, ← htuple, hm]
    . rcases hnew with ⟨hact, hfind, hlisten, hnext, _, hm⟩
      rcases hcases hst' hsip' with ⟨old', hold', holdtuple', _⟩ | ⟨_, _, _, _, _, _, _, hnext', _⟩
      . refine absurd ?_ (hfirst env m l listener b old' hact hfind hlisten hold')
        rw [holdtuple', htuple, hm]
      . rw [hnext, hnext']
  . intro a st hst hsip
    rcases hcases hst hsip with ⟨old, hold, holdtuple, hstatus⟩ | ⟨_, _, _, _, _, _, _, _, hstatus, _⟩
    . apply hstatus
      apply h.connected a old hold
      rw [(Prod.mk.inj holdtuple).1]
      exact hsip
    . simp [hstatus]

/-- The table of connections stays without duplicates in every run of the calls and segments there may be, so
a segment goes to the stream of its connection, else to a listener, else to none. -/
theorem connections_demultiplexed {tr : List Step} {t : Stack} (h : Run .init tr t)
    (hpermitted : ∀ tr1 e tr2, tr = tr1 ++ e :: tr2 → Permitted tr1 e)
    (hcond : ∀ tr1 e tr2, tr = tr1 ++ e :: tr2 → demuxCond tr1 e = true) : Demultiplexed t := by
  have hunique : UniqueConnections t := by
    refine h.history_of_past_guard (P := fun _ t => UniqueConnections t)
      (C := fun tr1 e => Permitted tr1 e ∧ demuxCond tr1 e = true) ?_ ?_ ?_
    . constructor <;> simp [Stack.init, Stack.stream?]
    . intro tr1 e tr2 htr
      exact ⟨hpermitted tr1 e tr2 htr, hcond tr1 e tr2 htr⟩
    . intro tr s act out s' hrun hs hguard hstep
      apply hs.of_step hstep
      . intro fd hbinds a st hinfo
        exact sip_eq_zero_of_cond (e := ⟨s, act, out, s'⟩) hrun hguard.2 hbinds hinfo
      . exact hguard.1.segment
  exact demultiplexed_of_unique hunique.unique hunique.connected

/-- Two clients connect to the server. -/
theorem connections_demultiplexed_two
    : ∃ tr t, Run .init tr t ∧ tr.map Edge.act = serverUp ++ connect 5 ++ connect 6
        ∧ Demultiplexed t := by
  have hcheck : machine.check .init (serverUp ++ connect 5 ++ connect 6) (fun tr _ =>
      everywhere demuxCond tr
        && everywhere (fun tr e => (bindsFd e.act).all (fun fd => (openedAs tr fd).isSome)) tr)
      = true := by
    decide +kernel
  rcases Machine.exists_run_of_check hcheck with ⟨tr, t, hrun, hacts, htest⟩
  rw [Bool.and_eq_true] at htest
  refine ⟨tr, t, hrun, hacts, connections_demultiplexed hrun ?_ ?_⟩
  . intro tr1 e tr2 htr
    constructor
    . intro fd hbinds
      have := of_everywhere htest.2 htr
      rw [hbinds, Option.all_some] at this
      exact this
    . intro env m hact
      have hmem : e.act ∈ tr.map Edge.act := List.mem_map_of_mem (by simp [htr])
      rw [hacts, hact] at hmem
      simp only [serverUp, connect, List.cons_append, List.nil_append, List.mem_cons, reduceCtorEq,
        Act.ngTcpProcess.injEq, List.not_mem_nil, or_false, false_or] at hmem
      rcases hmem with ⟨rfl, rfl⟩ | ⟨rfl, rfl⟩ | ⟨rfl, rfl⟩ | ⟨rfl, rfl⟩ <;>
        exact ⟨by decide, fun _ => rfl⟩
  . intro tr1 e tr2 htr
    exact of_everywhere htest.1 htr

/-- The descriptor of a connection that has been closed is handed out again for a type without sockets, and
made to listen: the connection listens. -/
theorem not_connections_demultiplexed
    : ¬∀ tr t, Run .init tr t → (∀ tr1 e tr2, tr = tr1 ++ e :: tr2 → Permitted tr1 e)
        → Demultiplexed t := by
  -- A closed connection keeps its descriptor 5. `nsocket` hands this out again for a type of no socket.
  let acts := serverUp ++ connect 5
    ++ [.naccept 3, .nclose .granting 5, .nsocket .granting 3, .nlisten 5]
  have hcheck : machine.check .init acts (fun tr t =>
      everywhere (fun tr e => (bindsFd e.act).all (fun fd => (openedAs tr fd).isSome)) tr
        && (t.stream? 1).any (fun st => st.sip != 0 && st.status == .listen)) = true := by
    decide +kernel
  rcases Machine.exists_run_of_check hcheck with ⟨tr, t, hrun, hacts, htest⟩
  rw [Bool.and_eq_true, Option.any_eq_true] at htest
  rcases htest with ⟨hopened, st, hst, hlisten⟩
  simp only [Bool.and_eq_true, bne_iff_ne, ne_eq, beq_iff_eq] at hlisten
  intro hall
  refine (hall tr t hrun ?_).connected 1 st hst hlisten.1 hlisten.2
  intro tr1 e tr2 htr
  constructor
  . intro fd hbinds
    have := of_everywhere hopened htr
    rw [hbinds, Option.all_some] at this
    exact this
  . intro env m hact
    have hmem : e.act ∈ tr.map Edge.act := List.mem_map_of_mem (by simp [htr])
    rw [hacts, hact] at hmem
    simp only [acts, serverUp, connect, List.cons_append, List.nil_append, List.mem_cons, reduceCtorEq,
      Act.ngTcpProcess.injEq, List.not_mem_nil, or_false, false_or] at hmem
    rcases hmem with ⟨rfl, rfl⟩ | ⟨rfl, rfl⟩ <;> exact ⟨by decide, fun _ => rfl⟩

end NgStack
