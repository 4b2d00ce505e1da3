import DpdkLearning.Stack.Impl.Socket
import DpdkLearning.Stack.Impl.Udp
import DpdkLearning.Stack.Lemmas.Tcp

/-!
This module contains what a call of an application can do to the sockets and streams.
-/

open Lib

namespace NgStack

namespace Localhost

/--
The datagrams on the receive ring of a socket.
-/
def rcvItems (host : Localhost) : List Offload :=
  (host.rcvbuf.map RteRing.items).getD []

/--
The datagrams on its send ring.
-/
def sndItems (host : Localhost) : List Offload :=
  (host.sndbuf.map RteRing.items).getD []

end Localhost

/--
The names of the two rings `nsocket` creates for a socket of that type.
-/
def socketRings (type : Int) : Option (RingName × RingName) :=
  if type = sockDgram then
    some ("recv buffer".toList, "send buffer".toList)
  else if type = sockStream then
    some ("tcp recv buffer".toList, "tcp send buffer".toList)
  else
    none

/--
`nsocket` has memory for the socket and for both of its rings.
-/
def nsocketCreates (env : Env) (s : Stack) (type : Int) : Bool :=
  match socketRings type with
  | none => false
  | some (recv, send) =>
    env.rteMalloc 0 && (env.rteRingCreate 0 && !s.ringNames.contains recv)
      && (env.rteRingCreate 1 && !(recv :: s.ringNames).contains send)

/--
What `nsocket` gives back and leaves behind.
-/
inductive NsocketDone (env : Env) (s : Stack) (type : Int) : Int × Stack → Prop where
  | failed {r : Int} {names : List RingName} (h : nsocketCreates env s type = false)
    (hret : r = if (socketRings type).isSome then -1 else (getFdFrombitmap s.fdTable).1)
    : NsocketDone env s type
        (r, { s with fdTable := (getFdFrombitmap s.fdTable).2, ringNames := names })
  | host {host : Localhost} {names : List RingName} (htype : type = sockDgram)
    (h : nsocketCreates env s type = true)
    (hfd : host.fd = (getFdFrombitmap s.fdTable).1) (hproto : host.protocol = ipprotoUdp)
    (hrcv : host.rcvItems = []) (hsnd : host.sndItems = [])
    : NsocketDone env s type ((getFdFrombitmap s.fdTable).1, { s with
        fdTable := (getFdFrombitmap s.fdTable).2
        ringNames := names
        lhost := s.lhost.add host })
  | stream {st : NgTcpStream} {names : List RingName} (h : nsocketCreates env s type = true)
    (hfd : st.fd = (getFdFrombitmap s.fdTable).1) (hproto : st.protocol = ipprotoTcp)
    (hstatus : st.status = .closed) (hrcv : st.rcvItems = []) (hsnd : st.sndItems = [])
    (hsip : st.sip = 0) (hrings : st.hasRings = true)
    : NsocketDone env s type ((getFdFrombitmap s.fdTable).1, { s with
        fdTable := (getFdFrombitmap s.fdTable).2
        ringNames := names
        table.tcbSet := s.table.tcbSet.add st })

theorem rteRingCreate_some {α : Type} {ok : Bool} {names names' : List RingName} {name : RingName}
    {r : RteRing α} (h : rteRingCreate ok names name = (some r, names'))
    : (ok && !names.contains name) = true ∧ names' = name :: names ∧ r.items = [] := by
  unfold rteRingCreate at h
  split at h
  . next hok =>
    simp only [Prod.mk.injEq, Option.some.injEq] at h
    rcases h with ⟨rfl, rfl⟩
    exact ⟨hok, rfl, rfl⟩
  . simp at h

theorem rteRingCreate_none {α : Type} {ok : Bool} {names names' : List RingName} {name : RingName}
    (h : rteRingCreate (α := α) ok names name = (none, names'))
    : (ok && !names.contains name) = false ∧ names' = names := by
  unfold rteRingCreate at h
  split at h
  . simp at h
  . next hok =>
    simp only [Prod.mk.injEq, true_and] at h
    exact ⟨by simpa using hok, h.symm⟩

theorem nsocket_cases (env : Env) (s : Stack) (type : Int)
    : NsocketDone env s type (nsocket env s type) := by
  unfold nsocket
  dsimp only [-String.reduceToList]
  split
  . next htype =>
    have hrings : socketRings type = some ("recv buffer".toList, "send buffer".toList) := by
      rw [socketRings, if_pos htype]
    split
    . next hmalloc =>
      refine NsocketDone.failed ?_ (by rw [hrings]; rfl)
      simp [nsocketCreates, hrings, show env.rteMalloc 0 = false by simpa using hmalloc]
    . split
      . next hcreate =>
        refine NsocketDone.failed ?_ (by rw [hrings]; rfl)
        simp only [-String.reduceToList, nsocketCreates, hrings, (rteRingCreate_none hcreate).1, Bool.and_false,
          Bool.false_and]
      . next hmalloc _ rcvbuf names hcreate =>
        rcases rteRingCreate_some hcreate with ⟨hrecv, rfl, hrcv⟩
        split
        . next hcreate' =>
          refine NsocketDone.failed ?_ (by rw [hrings]; rfl)
          simp only [-String.reduceToList, nsocketCreates, hrings, (rteRingCreate_none hcreate').1, Bool.and_false]
        . next sndbuf names' hcreate' =>
          rcases rteRingCreate_some hcreate' with ⟨hsend, _, hsnd⟩
          refine NsocketDone.host htype ?_ rfl rfl hrcv hsnd
          simp only [Bool.not_eq_true', Bool.not_eq_false] at hmalloc
          simp only [-String.reduceToList, nsocketCreates, hrings, hmalloc, hrecv, hsend, Bool.and_self]
  . next hdgram =>
    split
    . next htype =>
      have hrings : socketRings type
          = some ("tcp recv buffer".toList, "tcp send buffer".toList) := by
        rw [socketRings, if_neg hdgram, if_pos htype]
      split
      . next hmalloc =>
        refine NsocketDone.failed ?_ (by rw [hrings]; rfl)
        simp [nsocketCreates, hrings, show env.rteMalloc 0 = false by simpa using hmalloc]
      . split
        . next hcreate =>
          refine NsocketDone.failed ?_ (by rw [hrings]; rfl)
          simp only [-String.reduceToList, nsocketCreates, hrings, (rteRingCreate_none hcreate).1, Bool.and_false,
            Bool.false_and]
        . next hmalloc _ rcvbuf names hcreate =>
          rcases rteRingCreate_some hcreate with ⟨hrecv, rfl, hrcv⟩
          split
          . next hcreate' =>
            refine NsocketDone.failed ?_ (by rw [hrings]; rfl)
            simp only [-String.reduceToList, nsocketCreates, hrings, (rteRingCreate_none hcreate').1, Bool.and_false]
          . next sndbuf names' hcreate' =>
            rcases rteRingCreate_some hcreate' with ⟨hsend, _, hsnd⟩
            refine NsocketDone.stream ?_ rfl rfl rfl hrcv hsnd rfl rfl
            simp only [Bool.not_eq_true', Bool.not_eq_false] at hmalloc
            simp only [-String.reduceToList, nsocketCreates, hrings, hmalloc, hrecv, hsend, Bool.and_self]
    . next hstream =>
      have hrings : socketRings type = none := by
        rw [socketRings, if_neg hdgram, if_neg hstream]
      refine NsocketDone.failed ?_ (by rw [hrings]; rfl)
      rw [nsocketCreates, hrings]

/--
A change of the sockets that leaves their descriptors and protocols.
-/
structure SameHosts (s s' : Stack) : Prop where
  rest : ∃ lhost mempool, s' = { s with lhost, mempool }
  next : s'.lhost.next = s.lhost.next
  hosts : ∀ a, (s'.lhost.get? a).map (fun h => (h.fd, h.protocol))
    = (s.lhost.get? a).map (fun h => (h.fd, h.protocol))

namespace SameHosts

theorem refl (s : Stack) : SameHosts s s :=
  ⟨⟨s.lhost, s.mempool, rfl⟩, rfl, fun _ => rfl⟩

theorem trans {s t u : Stack} (h1 : SameHosts s t) (h2 : SameHosts t u) : SameHosts s u := by
  rcases h1.rest with ⟨_, _, rfl⟩
  rcases h2.rest with ⟨lhost, mempool, rfl⟩
  exact ⟨⟨lhost, mempool, rfl⟩, h2.next.trans h1.next, fun a => (h2.hosts a).trans (h1.hosts a)⟩

theorem free (s : Stack) (m : Mbuf) : SameHosts s (s.rtePktmbufFree m) :=
  ⟨⟨s.lhost, m.addr :: s.mempool, rfl⟩, rfl, fun _ => rfl⟩

theorem modify (s : Stack) (a : Addr) {f : Localhost → Localhost}
    (h : ∀ host, s.lhost.get? a = some host
      → (f host).fd = host.fd ∧ (f host).protocol = host.protocol)
    : SameHosts s { s with lhost := s.lhost.modify a f } := by
  refine ⟨⟨s.lhost.modify a f, s.mempool, rfl⟩, rfl, ?_⟩
  intro b
  dsimp
  rw [ObjList.get?_modify]
  split
  . next heq =>
    subst heq
    cases hget : s.lhost.get? b with
    | none => rfl
    | some host =>
      rcases h host hget with ⟨hfd, hproto⟩
      simp [hfd, hproto]
  . rfl

end SameHosts

theorem udpProcess_cases {env : Env} {s s' : Stack} {m : Mbuf} {r : Int}
    (h : udpProcess env s m = .ok (r, s')) : SameHosts s s' := by
  unfold udpProcess at h
  split at h
  . simp only [Except.ok.injEq, Prod.mk.injEq] at h
    rw [← h.2]
    exact .free s m
  . next a host hinfo =>
    split at h
    . simp only [Except.ok.injEq, Prod.mk.injEq] at h
      rw [← h.2]
      exact .free s m
    . split at h
      . simp only [Except.ok.injEq, Prod.mk.injEq] at h
        rw [← h.2]
        exact .free s m
      . split at h
        . contradiction
        . simp only [Except.ok.injEq, Prod.mk.injEq] at h
          rw [← h.2]
          refine SameHosts.trans ?_ (.free _ m)
          exact .modify s a (fun _ _ => ⟨rfl, rfl⟩)

theorem nrecvfrom_cases {env : Env} {s s' : Stack} {sockfd r : Int} {buf buf' : Nat → UInt8}
    {len : Nat} {peer : Option (UInt16 × UInt32)}
    (h : nrecvfrom env s sockfd buf len = .ok (r, buf', peer, s')) : SameHosts s s' := by
  unfold nrecvfrom at h
  split at h
  . simp only [Except.ok.injEq, Prod.mk.injEq] at h
    rw [← h.2.2.2]
    exact .refl s
  . split at h
    . contradiction
    . next a host _ =>
      split at h
      . contradiction
      . split at h
        . contradiction
        . dsimp at h
          split at h
          . split at h
            . contradiction
            . simp only [Except.ok.injEq, Prod.mk.injEq] at h
              rw [← h.2.2.2]
              exact .modify s a (fun _ _ => ⟨rfl, rfl⟩)
          . simp only [Except.ok.injEq, Prod.mk.injEq] at h
            rw [← h.2.2.2]
            exact .modify s a (fun _ _ => ⟨rfl, rfl⟩)

theorem nsendto_cases {env : Env} {s s' : Stack} {sockfd r : Int} {buf : List UInt8}
    {sinPort : UInt16} {sAddr : UInt32}
    (h : nsendto env s sockfd buf sinPort sAddr = .ok (r, s')) : SameHosts s s' := by
  unfold nsendto at h
  split at h
  . simp only [Except.ok.injEq, Prod.mk.injEq] at h
    rw [← h.2]
    exact .refl s
  . split at h
    . contradiction
    . next a host _ =>
      split at h
      . simp only [Except.ok.injEq, Prod.mk.injEq] at h
        rw [← h.2]
        exact .refl s
      . split at h
        . simp only [Except.ok.injEq, Prod.mk.injEq] at h
          rw [← h.2]
          exact .refl s
        . split at h
          . contradiction
          . simp only [Except.ok.injEq, Prod.mk.injEq] at h
            rw [← h.2]
            exact .modify s a (fun _ _ => ⟨rfl, rfl⟩)

theorem udpOutHost_cases {alloc room : Bool} {arpt : ArpTable Int} {a : Addr} {host host' : Localhost}
    {frames : List UdpFrame} (h : udpOutHost alloc room arpt a host = .ok (host', frames))
    : host'.fd = host.fd ∧ host'.protocol = host.protocol := by
  unfold udpOutHost at h
  split at h
  . contradiction
  . split at h
    . simp only [Except.ok.injEq, Prod.mk.injEq] at h
      rw [← h.1]
      exact ⟨rfl, rfl⟩
    . split at h
      . contradiction
      . split at h <;>
          (simp only [Except.ok.injEq, Prod.mk.injEq] at h
           rw [← h.1]
           exact ⟨rfl, rfl⟩)

theorem udpOutLoop_cases {env : Env} {as : List Addr} {s s' : Stack} {frames : List UdpFrame}
    (h : udpOutLoop env as s = .ok (s', frames)) : SameHosts s s' := by
  induction as generalizing s frames with
  | nil =>
    simp only [udpOutLoop, Except.ok.injEq, Prod.mk.injEq] at h
    rw [← h.1]
    exact .refl s
  | cons a as ih =>
    unfold udpOutLoop at h
    split at h
    . exact ih h
    . next host hget =>
      split at h
      . contradiction
      . next host' frame hout =>
        split at h
        . contradiction
        . next t frames' hloop =>
          simp only [Except.ok.injEq, Prod.mk.injEq] at h
          rcases h with ⟨rfl, rfl⟩
          apply SameHosts.trans (SameHosts.modify s a (f := fun _ => host') ?_) (ih hloop)
          intro x hx
          rw [hget] at hx
          cases hx
          exact udpOutHost_cases hout

/--
What a call on the stream with that descriptor does to it.
-/
inductive NbindDone (s : Stack) (sockfd : Int) (sinPort : UInt16) (sAddr : UInt32)
    : Stack → Prop where
  | same : NbindDone s sockfd sinPort sAddr s
  | host {s' : Stack} (h : SameHosts s s') : NbindDone s sockfd sinPort sAddr s'
  | stream {a : Addr} {st : NgTcpStream} {mac : MacAddr}
    (hinfo : getHostinfoFromfd s sockfd = some (.stream a st))
    : NbindDone s sockfd sinPort sAddr (s.modifyStream a (fun st =>
        { st with dport := sinPort, dip := sAddr, localmac := mac, status := .closed }))

theorem nbind_cases {s s' : Stack} {sockfd r : Int} {sinPort : UInt16} {sAddr : UInt32}
    (h : nbind s sockfd sinPort sAddr = .ok (r, s')) : NbindDone s sockfd sinPort sAddr s' := by
  unfold nbind at h
  split at h
  . simp only [Except.ok.injEq, Prod.mk.injEq] at h
    rw [← h.2]
    exact .same
  . next i hinfo =>
    split at h
    . split at h
      . contradiction
      . next a host _ =>
        simp only [Except.ok.injEq, Prod.mk.injEq] at h
        rw [← h.2]
        exact .host (.modify s a (fun _ _ => ⟨rfl, rfl⟩))
    . split at h
      . split at h
        . contradiction
        . next a st hstream =>
          rw [Hostinfo.asStream_eq_ok_iff] at hstream
          subst hstream
          simp only [Except.ok.injEq, Prod.mk.injEq] at h
          rw [← h.2]
          exact .stream hinfo
      . simp only [Except.ok.injEq, Prod.mk.injEq] at h
        rw [← h.2]
        exact .same

theorem nlisten_cases {s s' : Stack} {sockfd r : Int} (h : nlisten s sockfd = .ok (r, s'))
    : s' = s ∨ ∃ a st, getHostinfoFromfd s sockfd = some (.stream a st)
        ∧ s' = s.modifyStream a (fun st => { st with status := .listen }) := by
  unfold nlisten at h
  split at h
  . simp only [Except.ok.injEq, Prod.mk.injEq] at h
    exact .inl h.2.symm
  . next i hinfo =>
    split at h
    . split at h
      . contradiction
      . next a st hstream =>
        rw [Hostinfo.asStream_eq_ok_iff] at hstream
        subst hstream
        simp only [Except.ok.injEq, Prod.mk.injEq] at h
        exact .inr ⟨a, st, hinfo, h.2.symm⟩
    . simp only [Except.ok.injEq, Prod.mk.injEq] at h
      exact .inl h.2.symm

theorem getAcceptTcb_some {s : Stack} {dport : UInt16} {a : Addr} {st : NgTcpStream}
    (h : getAcceptTcb s dport = some (a, st))
    : s.stream? a = some st ∧ st.dport = dport ∧ st.fd = -1 := by
  have := ObjList.find?_some h
  simp only [Bool.and_eq_true, beq_iff_eq] at this
  exact ⟨ObjList.get?_of_find? h, this.1.symm, this.2⟩

/--
The stream that `naccept` takes and the listener it takes it from.
-/
inductive NacceptDone (s : Stack) (sockfd : Int) : Int → Stack → Prop where
  | failed
    (h : ∀ l listener, getHostinfoFromfd s sockfd = some (.stream l listener)
      → listener.protocol ≠ ipprotoTcp)
    : NacceptDone s sockfd (-1) s
  | accepted {l a : Addr} {listener apt : NgTcpStream}
    (hinfo : getHostinfoFromfd s sockfd = some (.stream l listener))
    (hfind : getAcceptTcb s listener.dport = some (a, apt))
    : NacceptDone s sockfd (getFdFrombitmap s.fdTable).1
        { s.modifyStream a (fun apt => { apt with fd := (getFdFrombitmap s.fdTable).1 }) with
          fdTable := (getFdFrombitmap s.fdTable).2 }

theorem naccept_cases {s s' : Stack} {sockfd r : Int} {peer : Option (UInt16 × UInt32)}
    (h : naccept s sockfd = .ok (r, peer, s')) : NacceptDone s sockfd r s' := by
  unfold naccept at h
  split at h
  . next hinfo =>
    simp only [Except.ok.injEq, Prod.mk.injEq] at h
    rw [← h.2.2, ← h.1]
    apply NacceptDone.failed
    simp [hinfo]
  . next i hinfo =>
    split at h
    . split at h
      . contradiction
      . next a st hstream =>
        rw [Hostinfo.asStream_eq_ok_iff] at hstream
        subst hstream
        split at h
        . contradiction
        . next b apt hfind =>
          dsimp at h
          simp only [Except.ok.injEq, Prod.mk.injEq] at h
          rw [← h.2.2, ← h.1]
          exact .accepted hinfo hfind
    . next hproto =>
      simp only [Except.ok.injEq, Prod.mk.injEq] at h
      rw [← h.2.2, ← h.1]
      apply NacceptDone.failed
      intro l listener hinfo'
      rw [hinfo] at hinfo'
      cases hinfo'
      exact hproto

/--
What `nsend` does to the stack.
-/
inductive NsendDone (env : Env) (s : Stack) (sockfd : Int) (buf : List UInt8) : Stack → Prop where
  | same
    (h : ∀ a st, getHostinfoFromfd s sockfd = some (.stream a st) → st.protocol = ipprotoTcp
      → env.rteMalloc 0 = false ∨ env.rteMalloc 1 = false)
    : NsendDone env s sockfd buf s
  | sent {a : Addr} {st : NgTcpStream} {sndbuf : RteRing NgTcpFragment}
    (hinfo : getHostinfoFromfd s sockfd = some (.stream a st)) (hproto : st.protocol = ipprotoTcp)
    (hmalloc : env.rteMalloc 0 = true ∧ env.rteMalloc 1 = true)
    (hsnd : sndbuf.items = st.sndItems ++ enqueued st.sndItems.length (st.sndFragment buf))
    : NsendDone env s sockfd buf
        (s.modifyStream a (fun st => { st with sndbuf := some sndbuf }))

theorem nsend_cases {env : Env} {s s' : Stack} {sockfd r : Int} {buf : List UInt8}
    (h : nsend env s sockfd buf = .ok (r, s')) : NsendDone env s sockfd buf s' := by
  unfold nsend at h
  split at h
  . next hinfo =>
    simp only [Except.ok.injEq, Prod.mk.injEq] at h
    rw [← h.2]
    apply NsendDone.same
    simp [hinfo]
  . next i hinfo =>
    split at h
    . next hproto =>
      split at h
      . contradiction
      . next a st hstream =>
        rw [Hostinfo.asStream_eq_ok_iff] at hstream
        subst hstream
        split at h
        . next hmalloc =>
          simp only [Except.ok.injEq, Prod.mk.injEq] at h
          rw [← h.2]
          exact .same (fun _ _ _ _ => .inl (by simpa using hmalloc))
        . next hmalloc0 =>
          split at h
          . next hmalloc =>
            simp only [Except.ok.injEq, Prod.mk.injEq] at h
            rw [← h.2]
            exact .same (fun _ _ _ _ => .inr (by simpa using hmalloc))
          . next hmalloc1 =>
            split at h
            . contradiction
            . next sndbuf hsnd =>
              simp only [Except.ok.injEq, Prod.mk.injEq] at h
              rw [← h.2]
              refine .sent hinfo hproto ⟨by simpa using hmalloc0, by simpa using hmalloc1⟩ ?_
              simp [NgTcpStream.sndItems, hsnd, items_enqueue]
    . next hproto =>
      simp only [Except.ok.injEq, Prod.mk.injEq] at h
      rw [← h.2]
      apply NsendDone.same
      intro a st hinfo' htcp
      rw [hinfo] at hinfo'
      cases hinfo'
      exact absurd htcp hproto

theorem nrecv_cases {s s' : Stack} {sockfd r : Int} {buf buf' : Nat → UInt8} {len : Nat}
    (h : nrecv s sockfd buf len = .ok (r, buf', s'))
    : s' = s ∧ r ≤ 0 ∨ ∃ a st rcvbuf f rest, getHostinfoFromfd s sockfd = some (.stream a st)
        ∧ st.rcvItems = f :: rest
        ∧ (len < f.length.toNat ∧ rcvbuf.items.length = rest.length + 1
          ∨ f.length.toNat ≤ len ∧ rcvbuf.items = rest ∧ r = f.length.toNat)
        ∧ s' = s.modifyStream a (fun st => { st with rcvbuf := some rcvbuf }) := by
  unfold nrecv at h
  split at h
  . simp only [Except.ok.injEq, Prod.mk.injEq] at h
    exact .inl ⟨h.2.2.symm, by omega⟩
  . next i hinfo =>
    split at h
    . split at h
      . contradiction
      . next a st hstream =>
        rw [Hostinfo.asStream_eq_ok_iff] at hstream
        subst hstream
        split at h
        . contradiction
        . next rcvbuf hrcv =>
          split at h
          . contradiction
          . next f q hdeq =>
            have hitems : st.rcvItems = f :: q.items := by
              simp only [NgTcpStream.rcvItems, hrcv, Option.map_some, Option.getD_some]
              exact (rteRingMcDequeue_eq_some_iff.mp hdeq).1
            split at h
            -- What is left of the fragment goes back on the ring, which has room after the dequeue.
            . next hlt =>
              split at h
              . contradiction
              . simp only [Except.ok.injEq, Prod.mk.injEq] at h
                refine .inr ⟨a, st, _, f, q.items, hinfo, hitems, .inl ⟨hlt, ?_⟩, h.2.2.symm⟩
                rw [items_enqueue_of_dequeue hdeq]
                simp
            . next hle =>
              dsimp at h
              split at h
              . next hzero =>
                simp only [Except.ok.injEq, Prod.mk.injEq] at h
                refine .inr ⟨a, st, q, f, q.items, hinfo, hitems, .inr ⟨by omega, rfl, ?_⟩,
                  h.2.2.symm⟩
                simp [← h.1, hzero]
              . split at h
                . contradiction
                . simp only [Except.ok.injEq, Prod.mk.injEq] at h
                  exact .inr ⟨a, st, q, f, q.items, hinfo, hitems, .inr ⟨by omega, rfl, h.1.symm⟩,
                    h.2.2.symm⟩
    . simp only [Except.ok.injEq, Prod.mk.injEq] at h
      exact .inl ⟨h.2.2.symm, by omega⟩

/--
What `nclose` does to the stack.
-/
inductive NcloseDone (env : Env) (s : Stack) (fd : Int) : Stack → Prop where
  | same
    (h : ∀ a st, getHostinfoFromfd s fd = some (.stream a st) → st.protocol = ipprotoTcp
      → st.status ≠ .listen ∧ env.rteMalloc 0 = false)
    (hhost : ∀ a host, getHostinfoFromfd s fd = some (.host a host) → host.protocol ≠ ipprotoUdp)
    : NcloseDone env s fd s
  | host {a : Addr} {host : Localhost} {names : List RingName}
    (hinfo : getHostinfoFromfd s fd = some (.host a host)) (hproto : host.protocol = ipprotoUdp)
    : NcloseDone env s fd { s with
        lhost := s.lhost.remove a
        ringNames := names
        fdTable := setFdFrombitmap s.fdTable fd }
  | fin {a : Addr} {st : NgTcpStream} {sndbuf : RteRing NgTcpFragment}
    (hinfo : getHostinfoFromfd s fd = some (.stream a st)) (hproto : st.protocol = ipprotoTcp)
    (hstatus : st.status ≠ .listen) (hmalloc : env.rteMalloc 0 = true)
    (hsnd : sndbuf.items
      = st.sndItems ++ enqueued st.sndItems.length (st.finFragment env.staleFragment))
    : NcloseDone env s fd
        { s.modifyStream a (fun st => { st with sndbuf := some sndbuf, status := .lastAck }) with
          fdTable := setFdFrombitmap s.fdTable fd }
  | listen {a : Addr} {st : NgTcpStream} (hinfo : getHostinfoFromfd s fd = some (.stream a st))
    (hstatus : st.status = .listen)
    : NcloseDone env s fd { s with table.tcbSet := s.table.tcbSet.remove a }

theorem nclose_cases {env : Env} {s s' : Stack} {fd r : Int} (h : nclose env s fd = .ok (r, s'))
    : NcloseDone env s fd s' := by
  unfold nclose at h
  split at h
  . next hinfo =>
    simp only [Except.ok.injEq, Prod.mk.injEq] at h
    rw [← h.2]
    apply NcloseDone.same <;> simp [hinfo]
  . next i hinfo =>
    split at h
    . next hproto =>
      split at h
      . contradiction
      . next a host hhost =>
        rw [Hostinfo.asHost_eq_ok_iff] at hhost
        subst hhost
        simp only [Except.ok.injEq, Prod.mk.injEq] at h
        rw [← h.2]
        exact .host hinfo hproto
    . next hnoHost =>
      have hhost : ∀ a host, getHostinfoFromfd s fd = some (.host a host) → host.protocol ≠ ipprotoUdp := by
        intro a host hinfo'
        rw [hinfo] at hinfo'
        cases hinfo'
        exact hnoHost
      split at h
      . next hproto =>
        split at h
        . contradiction
        . next a st hstream =>
          rw [Hostinfo.asStream_eq_ok_iff] at hstream
          subst hstream
          split at h
          . next hstatus =>
            split at h
            -- Without memory for the FIN the stream stays as it is.
            . next hmalloc =>
              simp only [Except.ok.injEq, Prod.mk.injEq] at h
              rw [← h.2]
              refine .same ?_ hhost
              intro b st' hinfo' _
              rw [hinfo] at hinfo'
              simp only [Option.some.injEq, Hostinfo.stream.injEq] at hinfo'
              rw [← hinfo'.2]
              exact ⟨hstatus, by simpa using hmalloc⟩
            . next hmalloc =>
              split at h
              . contradiction
              . next sndbuf hsnd =>
                simp only [Except.ok.injEq, Prod.mk.injEq] at h
                rw [← h.2]
                refine .fin hinfo hproto hstatus (by simpa using hmalloc) ?_
                simp [NgTcpStream.sndItems, hsnd, items_enqueue]
          . next hstatus =>
            simp only [Except.ok.injEq, Prod.mk.injEq] at h
            rw [← h.2]
            exact .listen hinfo (by simpa using hstatus)
      . next hproto =>
        simp only [Except.ok.injEq, Prod.mk.injEq] at h
        rw [← h.2]
        refine .same ?_ hhost
        intro a st hinfo' htcp
        rw [hinfo] at hinfo'
        cases hinfo'
        exact absurd htcp hproto

end NgStack
