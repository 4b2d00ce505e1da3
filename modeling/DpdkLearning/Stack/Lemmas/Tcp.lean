import DpdkLearning.Stack.Impl.Tcp
import DpdkLearning.Stack.Lemmas.Epoll
import DpdkLearning.Stack.Lemmas.Ring

/-!
This module contains what one segment can do to the stack and one pass of `ng_tcp_out` to a stream.
-/

open Lib

namespace NgStack

namespace NgTcpStream

/--
The fragments that wait to be read. A ring that could not be created holds none.
-/
def rcvItems (st : NgTcpStream) : List NgTcpFragment :=
  (st.rcvbuf.map RteRing.items).getD []

/--
The fragments that wait to be sent.
-/
def sndItems (st : NgTcpStream) : List NgTcpFragment :=
  (st.sndbuf.map RteRing.items).getD []

/--
Both of its rings could be created.
-/
def hasRings (st : NgTcpStream) : Bool :=
  st.sndbuf.isSome && st.rcvbuf.isSome

end NgTcpStream

/--
What an enqueue adds to a ring of that length.
-/
def enqueued (length : Nat) (f : NgTcpFragment) : List NgTcpFragment :=
  if length < ringSize - 1 then [f] else []

theorem items_enqueue (r : RteRing NgTcpFragment) (f : NgTcpFragment)
    : (rteRingMpEnqueue r f).items = r.items ++ enqueued r.items.length f := by
  apply items_rteRingMpEnqueue

/--
The fragments `ng_tcp_enqueue_recvbuffer` appends to a receive buffer of that length.
-/
def appended (env : Env) (length : Nat) (m : Mbuf) (tcplen : Int) : List NgTcpFragment :=
  match recvFragment env m tcplen with
  | none => []
  | some f => enqueued length f

theorem ngTcpEnqueueRecvbuffer_cases {env : Env} {st st' : NgTcpStream} {m : Mbuf} {tcplen r : Int}
    (h : ngTcpEnqueueRecvbuffer env st m tcplen = .ok (r, st'))
    : ∃ rcvbuf, st' = { st with rcvbuf } ∧ rcvbuf.isSome = st.rcvbuf.isSome
        ∧ st'.rcvItems = st.rcvItems ++ appended env st.rcvItems.length m tcplen := by
  unfold ngTcpEnqueueRecvbuffer at h
  unfold appended
  cases hfragment : recvFragment env m tcplen with
  | none =>
    simp only [hfragment, Except.ok.injEq, Prod.mk.injEq] at h
    rw [← h.2]
    exact ⟨st.rcvbuf, rfl, rfl, by simp⟩
  | some f =>
    simp only [hfragment] at h
    split at h
    . contradiction
    . next rcvbuf hrcv =>
      simp only [Except.ok.injEq, Prod.mk.injEq] at h
      rw [← h.2]
      refine ⟨_, rfl, by rw [hrcv]; rfl, ?_⟩
      simp [NgTcpStream.rcvItems, hrcv, items_enqueue]

/--
The fragments `ng_tcp_send_ackpkt` queues.
-/
def acked (env : Env) (st : NgTcpStream) (tcphdr : RteTcpHdr) : List NgTcpFragment :=
  if env.rteMalloc 0 then enqueued st.sndItems.length (ackFragment st tcphdr) else []

theorem ngTcpSendAckpkt_cases {env : Env} {st st' : NgTcpStream} {tcphdr : RteTcpHdr} {r : Int}
    (h : ngTcpSendAckpkt env st tcphdr = .ok (r, st'))
    : ∃ sndbuf, st' = { st with sndbuf } ∧ sndbuf.isSome = st.sndbuf.isSome
        ∧ st'.sndItems = st.sndItems ++ acked env st tcphdr := by
  unfold ngTcpSendAckpkt at h
  unfold acked
  split at h
  . next hmalloc =>
    simp only [Except.ok.injEq, Prod.mk.injEq] at h
    rw [← h.2]
    simp only [Bool.not_eq_true'] at hmalloc
    exact ⟨st.sndbuf, rfl, rfl, by simp [hmalloc]⟩
  . next hmalloc =>
    split at h
    . contradiction
    . next sndbuf hsnd =>
      simp only [Except.ok.injEq, Prod.mk.injEq] at h
      rw [← h.2]
      simp only [Bool.not_eq_true', Bool.not_eq_false] at hmalloc
      refine ⟨_, rfl, by rw [hsnd]; rfl, ?_⟩
      simp [NgTcpStream.sndItems, hsnd, items_enqueue, hmalloc]

/--
What is done for a PSH or a FIN: the stream keeps all but its buffers and its two counters.
-/
structure Received (env : Env) (st : NgTcpStream) (m : Mbuf) (tcplen n : Int) (st' : NgTcpStream)
    : Prop where
  stream : ∃ rcvbuf sndbuf, st' = { st with
    rcvbuf
    sndbuf
    rcvNxt := st.rcvNxt + UInt32.ofInt n
    sndNxt := ntohl m.tcp.recvAck }
  rcvItems : st'.rcvItems = st.rcvItems ++ appended env st.rcvItems.length m tcplen
  sndItems : st'.sndItems = st.sndItems ++ acked (env.after 2) { st' with sndbuf := st.sndbuf } m.tcp
  hasRings : st'.hasRings = st.hasRings

theorem establishedStep_cases {env : Env} {ep : Option Eventpoll} {st st' : NgTcpStream} {m : Mbuf}
    {tcplen n : Int} {ep' : Eventpoll} (h : establishedStep env ep st m tcplen n = .ok (st', ep'))
    : Received env st m tcplen n st'
      ∧ ∃ e, ep = some e ∧ Signalled e st.fd epollin ep' := by
  unfold establishedStep at h
  split at h
  . contradiction
  . next st1 henq =>
    split at h
    . contradiction
    . next ep1 hcallback =>
      dsimp at h
      split at h
      . contradiction
      . next st2 hack =>
        simp only [Except.ok.injEq, Prod.mk.injEq] at h
        rcases h with ⟨rfl, rfl⟩
        rcases ngTcpEnqueueRecvbuffer_cases henq with ⟨rcvbuf, hst1, hrcvbuf, hrcv⟩
        rcases ngTcpSendAckpkt_cases hack with ⟨sndbuf, hst2, hsndbuf, hsnd⟩
        subst hst1 hst2
        refine ⟨⟨⟨rcvbuf, sndbuf, rfl⟩, hrcv, hsnd, ?_⟩, epollEventCallback_cases hcallback⟩
        dsimp only at hsndbuf
        rw [NgTcpStream.hasRings, NgTcpStream.hasRings, hrcvbuf, hsndbuf]

/--
What a segment does to an established stream and to the event poll.
-/
inductive SegmentHandled (env : Env) (m : Mbuf) (st : NgTcpStream) (ep : Option Eventpoll)
    : NgTcpStream → Option Eventpoll → Prop where
  | neither (hpsh : hasFlag m.tcp.tcpFlags rteTcpPshFlag = false)
    (hfin : hasFlag m.tcp.tcpFlags rteTcpFinFlag = false) : SegmentHandled env m st ep st ep
  | psh {st' : NgTcpStream} {e ep' : Eventpoll}
    (hpsh : hasFlag m.tcp.tcpFlags rteTcpPshFlag = true)
    (hfin : hasFlag m.tcp.tcpFlags rteTcpFinFlag = false)
    (h : Received env st m (tcplen m.ip) (payloadlen m.tcp (tcplen m.ip)) st')
    (hep : ep = some e) (hsig : Signalled e st.fd epollin ep')
    : SegmentHandled env m st ep st' (some ep')
  | fin {st' : NgTcpStream} {e ep' : Eventpoll}
    (hpsh : hasFlag m.tcp.tcpFlags rteTcpPshFlag = false)
    (hfin : hasFlag m.tcp.tcpFlags rteTcpFinFlag = true)
    (h : Received (env.after 3) { st with status := .closeWait } m (hdrlen m.tcp).toNat 1 st')
    (hep : ep = some e) (hsig : Signalled e st.fd epollin ep')
    : SegmentHandled env m st ep st' (some ep')
  | both {st1 st' : NgTcpStream} {e ep1 ep' : Eventpoll}
    (hpsh : hasFlag m.tcp.tcpFlags rteTcpPshFlag = true)
    (hfin : hasFlag m.tcp.tcpFlags rteTcpFinFlag = true)
    (h1 : Received env st m (tcplen m.ip) (payloadlen m.tcp (tcplen m.ip)) st1)
    (h2 : Received (env.after 3) { st1 with status := .closeWait } m (hdrlen m.tcp).toNat 1 st')
    (hep : ep = some e) (hsig1 : Signalled e st.fd epollin ep1)
    (hsig2 : Signalled ep1 st.fd epollin ep')
    : SegmentHandled env m st ep st' (some ep')

namespace Stack

/--
The stack after a segment for the stream at `a`.
-/
def afterSegment (s : Stack) (a : Addr) (st : NgTcpStream) (ep : Option Eventpoll) : Stack :=
  { s with table := { ep, tcbSet := s.table.tcbSet.modify a (fun _ => st) } }

end Stack

theorem Received.fd_eq {env : Env} {st st' : NgTcpStream} {m : Mbuf} {tcplen n : Int}
    (h : Received env st m tcplen n st') : st'.fd = st.fd := by
  rcases h.stream with ⟨_, _, rfl⟩
  rfl

theorem ngTcpHandleEstablished_cases {env : Env} {s s' : Stack} {a : Addr} {st : NgTcpStream}
    {m : Mbuf} {r : Int} (hst : s.stream? a = some st)
    (h : ngTcpHandleEstablished env s a st m (tcplen m.ip) = .ok (r, s'))
    : ∃ st' ep', SegmentHandled env m st s.table.ep st' ep' ∧ s' = s.afterSegment a st' ep' := by
  unfold ngTcpHandleEstablished at h
  dsimp at h
  by_cases hpsh : hasFlag m.tcp.tcpFlags rteTcpPshFlag = true
  . rw [if_pos hpsh] at h
    cases hstep : establishedStep env s.table.ep st m (tcplen m.ip)
        (payloadlen m.tcp (tcplen m.ip)) with
    | error e => simp [hstep] at h
    | ok p =>
      rcases p with ⟨st1, ep1⟩
      rw [hstep] at h
      dsimp at h
      rcases establishedStep_cases hstep with ⟨hrcv1, e, hep, hsig1⟩
      split at h
      . next hfin =>
        split at h
        . contradiction
        . next st2 ep2 hstep2 =>
          simp only [Except.ok.injEq, Prod.mk.injEq] at h
          rw [← h.2]
          rcases establishedStep_cases hstep2 with ⟨hrcv2, e', hep', hsig2⟩
          -- The second pass over the segment starts from the stack as the first one has left it.
          have : ep1 = e' := by simpa [Stack.setEp] using hep'
          subst this
          dsimp at hsig2
          rw [hrcv1.fd_eq] at hsig2
          refine ⟨st2, some ep2, .both hpsh hfin hrcv1 hrcv2 hep hsig1 hsig2, ?_⟩
          unfold Stack.setEp Stack.modifyStream Stack.afterSegment
          dsimp
          rw [ObjList.modify_modify]
          rfl
      . next hfin =>
        simp only [Except.ok.injEq, Prod.mk.injEq] at h
        rw [← h.2]
        exact ⟨st1, some ep1, .psh hpsh (by simpa using hfin) hrcv1 hep hsig1, rfl⟩
  . rw [if_neg hpsh] at h
    dsimp at h
    simp only [Bool.not_eq_true] at hpsh
    split at h
    . next hfin =>
      split at h
      . contradiction
      . next st2 ep2 hstep2 =>
        simp only [Except.ok.injEq, Prod.mk.injEq] at h
        rw [← h.2]
        rcases establishedStep_cases hstep2 with ⟨hrcv2, e, hep, hsig⟩
        exact ⟨st2, some ep2, .fin hpsh hfin hrcv2 hep hsig, rfl⟩
    . next hfin =>
      simp only [Except.ok.injEq, Prod.mk.injEq] at h
      rw [← h.2]
      refine ⟨st, s.table.ep, .neither hpsh (by simpa using hfin), ?_⟩
      unfold Stack.afterSegment
      rw [ObjList.modify_eq_self]
      intro x hx
      rw [Stack.stream?, hx] at hst
      exact (Option.some.inj hst).symm

/--
The stream `ng_tcp_handle_listen` creates for a SYN.
-/
structure Created (env : Env) (s : Stack) (m : Mbuf) (syn : NgTcpStream) : Prop where
  sip : syn.sip = m.ip.srcAddr
  dip : syn.dip = m.ip.dstAddr
  sport : syn.sport = m.tcp.srcPort
  dport : syn.dport = m.tcp.dstPort
  protocol : syn.protocol = ipprotoTcp
  fd : syn.fd = -1
  status : syn.status = .listen
  sndNxt : syn.sndNxt = env.randR % tcpMaxSeq
  rcvItems : syn.rcvItems = []
  sndItems : syn.sndItems = []
  create : (ngTcpStreamCreate env s m.ip.srcAddr m.ip.dstAddr m.tcp.srcPort m.tcp.dstPort).1
    = some syn

theorem items_rteRingCreate {α : Type} (ok : Bool) (names : List RingName) (name : RingName)
    : ((rteRingCreate (α := α) ok names name).1.map RteRing.items).getD [] = [] := by
  unfold rteRingCreate
  split <;> rfl

theorem ngTcpStreamCreate_cases {env : Env} {s : Stack} {m : Mbuf} {syn : NgTcpStream}
    {names : List RingName}
    (h : ngTcpStreamCreate env s m.ip.srcAddr m.ip.dstAddr m.tcp.srcPort m.tcp.dstPort
      = (some syn, names))
    : Created env s m syn := by
  have hcreate := congrArg Prod.fst h
  unfold ngTcpStreamCreate at h
  split at h
  . simp at h
  . simp only [Prod.mk.injEq, Option.some.injEq] at h
    rw [← h.1] at hcreate ⊢
    constructor <;> first | rfl | apply items_rteRingCreate | exact hcreate

/--
A segment that `ng_tcp_process` drops once it has found the stream.
-/
def ignores (status : NgTcpStatus) (tcpFlags : UInt8) : Bool :=
  match status with
  | .listen => !hasFlag tcpFlags rteTcpSynFlag
  | .synRcvd => !hasFlag tcpFlags rteTcpAckFlag
  | .established => false
  | .lastAck => !hasFlag tcpFlags rteTcpAckFlag
  | _ => true

/--
What a segment does to the stack, the mbuf aside.
-/
inductive SegmentProcessed (env : Env) (s : Stack) (m : Mbuf) : Stack → Prop where
  | ignored
    (h : cksumOk env m = true → ∀ a st, ngTcpStreamOf s m = some (a, st)
      → ignores st.status m.tcp.tcpFlags = true)
    : SegmentProcessed env s m s
  | halfOpen {a : Addr} {st syn : NgTcpStream} {names : List RingName}
    (hcksum : cksumOk env m = true) (hfind : ngTcpStreamOf s m = some (a, st))
    (hstatus : st.status = .listen) (hsyn : hasFlag m.tcp.tcpFlags rteTcpSynFlag = true)
    (hmalloc : env.rteMalloc 1 = false) (hcreate : Created env s m syn)
    : SegmentProcessed env s m
        { s with ringNames := names, table.tcbSet := s.table.tcbSet.add syn }
  | synAck {a : Addr} {st syn : NgTcpStream} {names : List RingName}
    {sndbuf : RteRing NgTcpFragment}
    (hcksum : cksumOk env m = true) (hfind : ngTcpStreamOf s m = some (a, st))
    (hstatus : st.status = .listen) (hsyn : hasFlag m.tcp.tcpFlags rteTcpSynFlag = true)
    (hmalloc : env.rteMalloc 1 = true) (hcreate : Created env s m syn)
    (hsnd : syn.sndbuf = some sndbuf)
    : SegmentProcessed env s m { s with
        ringNames := names
        table.tcbSet := s.table.tcbSet.add { syn with
          rcvNxt := (synAckFragment syn m.tcp).acknum
          sndbuf := some (rteRingMpEnqueue sndbuf (synAckFragment syn m.tcp))
          status := .synRcvd } }
  | handshake {a b : Addr} {st listener : NgTcpStream} {e ep' : Eventpoll}
    (hcksum : cksumOk env m = true) (hfind : ngTcpStreamOf s m = some (a, st))
    (hstatus : st.status = .synRcvd) (hack : hasFlag m.tcp.tcpFlags rteTcpAckFlag = true)
    (hlistener : ngTcpStreamSearch (s.modifyStream a (fun st => { st with status := .established }))
      0 0 0 st.dport = some (b, listener))
    (hep : s.table.ep = some e) (hsig : Signalled e listener.fd epollin ep')
    : SegmentProcessed env s m
        (s.afterSegment a { st with status := .established } (some ep'))
  | segment {a : Addr} {st st' : NgTcpStream} {ep' : Option Eventpoll}
    (hcksum : cksumOk env m = true) (hfind : ngTcpStreamOf s m = some (a, st))
    (hstatus : st.status = .established) (h : SegmentHandled env m st s.table.ep st' ep')
    : SegmentProcessed env s m (s.afterSegment a st' ep')
  | lastAck {a : Addr} {st : NgTcpStream} {names : List RingName}
    (hcksum : cksumOk env m = true) (hfind : ngTcpStreamOf s m = some (a, st))
    (hstatus : st.status = .lastAck) (hack : hasFlag m.tcp.tcpFlags rteTcpAckFlag = true)
    : SegmentProcessed env s m
        { s with ringNames := names, table.tcbSet := s.table.tcbSet.remove a }

theorem ngTcpStreamSearch_some {s : Stack} {sip dip : UInt32} {sport dport : UInt16} {a : Addr}
    {st : NgTcpStream} (h : ngTcpStreamSearch s sip dip sport dport = some (a, st))
    : s.stream? a = some st ∧ st.dport = dport
      ∧ (st.sip = sip ∧ st.dip = dip ∧ st.sport = sport ∨ st.status = .listen) := by
  unfold ngTcpStreamSearch at h
  split at h
  . next found hfind =>
    simp only [Option.some.injEq] at h
    subst h
    have := ObjList.find?_some hfind
    simp only [Bool.and_eq_true, beq_iff_eq] at this
    exact ⟨ObjList.get?_of_find? hfind, this.2, .inl ⟨this.1.1.1, this.1.1.2, this.1.2⟩⟩
  . have := ObjList.find?_some h
    simp only [Bool.and_eq_true, beq_iff_eq] at this
    exact ⟨ObjList.get?_of_find? h, this.1, .inr this.2⟩

theorem stream?_of_ngTcpStreamOf {s : Stack} {m : Mbuf} {a : Addr} {st : NgTcpStream}
    (h : ngTcpStreamOf s m = some (a, st)) : s.stream? a = some st :=
  (ngTcpStreamSearch_some h).1

theorem SegmentProcessed.of_ignores {env : Env} {s : Stack} {m : Mbuf} {a : Addr} {st : NgTcpStream}
    (hfind : ngTcpStreamOf s m = some (a, st)) (h : ignores st.status m.tcp.tcpFlags = true)
    : SegmentProcessed env s m s := by
  apply SegmentProcessed.ignored
  intro _ b st' hfind'
  rw [hfind] at hfind'
  simp only [Option.some.injEq, Prod.mk.injEq] at hfind'
  rw [← hfind'.2]
  exact h

theorem afterSegment_eq_modifyStream {s : Stack} {a : Addr} {st : NgTcpStream}
    {f : NgTcpStream → NgTcpStream} (h : s.stream? a = some st) (ep : Eventpoll)
    : (s.modifyStream a f).setEp ep = s.afterSegment a (f st) (some ep) := by
  unfold Stack.afterSegment Stack.modifyStream Stack.setEp
  dsimp
  congr 2
  apply ObjList.ext
  . rfl
  . apply List.map_congr_left
    intro c hc
    split
    . next heq =>
      have : s.table.tcbSet.get? a = some c.2 := by
        rw [ObjList.get?_eq_some_iff, ← heq]
        exact hc
      rw [Stack.stream?, this] at h
      rw [Option.some.inj h]
    . rfl

theorem ngTcpHandleListen_cases {env : Env} {s s' : Stack} {a : Addr} {st : NgTcpStream} {m : Mbuf}
    {r : Int} (hcksum : cksumOk env m = true) (hfind : ngTcpStreamOf s m = some (a, st))
    (hstatus : st.status = .listen) (h : ngTcpHandleListen env s st m.tcp m.ip = .ok (r, s'))
    : SegmentProcessed env s m s' := by
  unfold ngTcpHandleListen at h
  split at h
  . next hsyn =>
    split at h
    . contradiction
    . next syn names hcreate =>
      have hcreated := ngTcpStreamCreate_cases hcreate
      dsimp at h
      split at h
      . next hmalloc =>
        simp only [Except.ok.injEq, Prod.mk.injEq] at h
        rw [← h.2]
        exact .halfOpen hcksum hfind hstatus hsyn (by simpa using hmalloc) hcreated
      . next hmalloc =>
        split at h
        . contradiction
        . next sndbuf hsnd =>
          simp only [Except.ok.injEq, Prod.mk.injEq] at h
          rw [← h.2]
          unfold Stack.modifyStream
          dsimp
          rw [ObjList.modify_add]
          exact .synAck hcksum hfind hstatus hsyn (by simpa using hmalloc) hcreated hsnd
  . next hsyn =>
    simp only [Except.ok.injEq, Prod.mk.injEq] at h
    rw [← h.2]
    apply SegmentProcessed.of_ignores hfind
    simpa [ignores, hstatus] using hsyn

theorem ngTcpHandleSynRcvd_cases {env : Env} {s s' : Stack} {a : Addr} {st : NgTcpStream} {m : Mbuf}
    {r : Int} (hcksum : cksumOk env m = true) (hfind : ngTcpStreamOf s m = some (a, st))
    (hstatus : st.status = .synRcvd) (h : ngTcpHandleSynRcvd s a st m.tcp = .ok (r, s'))
    : SegmentProcessed env s m s' := by
  unfold ngTcpHandleSynRcvd at h
  split at h
  . next hack =>
    dsimp at h
    split at h
    . contradiction
    . next b listener hlistener =>
      split at h
      . contradiction
      . next ep' hcallback =>
        simp only [Except.ok.injEq, Prod.mk.injEq] at h
        rw [← h.2]
        rw [afterSegment_eq_modifyStream (stream?_of_ngTcpStreamOf hfind)]
        rcases epollEventCallback_cases hcallback with ⟨e, hep, hsig⟩
        exact .handshake hcksum hfind hstatus hack hlistener hep hsig
  . next hack =>
    simp only [Except.ok.injEq, Prod.mk.injEq] at h
    rw [← h.2]
    apply SegmentProcessed.of_ignores hfind
    simpa [ignores, hstatus] using hack

theorem ngTcpHandleLastAck_cases {env : Env} {s : Stack} {a : Addr} {st : NgTcpStream} {m : Mbuf}
    (hcksum : cksumOk env m = true) (hfind : ngTcpStreamOf s m = some (a, st))
    (hstatus : st.status = .lastAck)
    : SegmentProcessed env s m (ngTcpHandleLastAck s a st m.tcp).2 := by
  unfold ngTcpHandleLastAck
  split
  . next hack =>
    exact .lastAck hcksum hfind hstatus hack
  . next hack =>
    apply SegmentProcessed.of_ignores hfind
    simpa [ignores, hstatus] using hack

theorem ngTcpDispatch_cases {env : Env} {s s' : Stack} {a : Addr} {st : NgTcpStream} {m : Mbuf}
    {r : Int} (hcksum : cksumOk env m = true) (hfind : ngTcpStreamOf s m = some (a, st))
    (h : ngTcpDispatch env s a st m = .ok (r, s')) : SegmentProcessed env s m s' := by
  unfold ngTcpDispatch at h
  cases hstatus : st.status with
  | listen =>
    rw [hstatus] at h
    exact ngTcpHandleListen_cases hcksum hfind hstatus h
  | synRcvd =>
    rw [hstatus] at h
    exact ngTcpHandleSynRcvd_cases hcksum hfind hstatus h
  | established =>
    rw [hstatus] at h
    have hst := stream?_of_ngTcpStreamOf hfind
    rcases ngTcpHandleEstablished_cases hst h with ⟨st', ep', hhandled, rfl⟩
    exact .segment hcksum hfind hstatus hhandled
  | lastAck =>
    rw [hstatus] at h
    simp only [Except.ok.injEq] at h
    have := ngTcpHandleLastAck_cases hcksum hfind hstatus
    rw [h] at this
    exact this
  | closed | synSent | finWait1 | finWait2 | closing | timeWait | closeWait =>
    rw [hstatus] at h
    simp only [ngTcpHandleCloseWait, Except.ok.injEq, Prod.mk.injEq] at h
    rw [← h.2]
    apply SegmentProcessed.of_ignores hfind
    rw [hstatus]
    rfl

theorem ngTcpProcess_cases {env : Env} {s s' : Stack} {m : Mbuf} {r : Int}
    (h : ngTcpProcess env s m = .ok (r, s'))
    : ∃ t, SegmentProcessed env s m t ∧ s' = t.rtePktmbufFree m := by
  unfold ngTcpProcess at h
  split at h
  . next hcksum =>
    simp only [Except.ok.injEq, Prod.mk.injEq] at h
    refine ⟨s, .ignored ?_, h.2.symm⟩
    intro hok
    simp [hok] at hcksum
  . next hcksum =>
    split at h
    . next hfind =>
      simp only [Except.ok.injEq, Prod.mk.injEq] at h
      refine ⟨s, .ignored ?_, h.2.symm⟩
      intro _ a st hfind'
      rw [hfind] at hfind'
      contradiction
    . next a st hfind =>
      split at h
      . contradiction
      . next t hdispatch =>
        simp only [Except.ok.injEq, Prod.mk.injEq] at h
        refine ⟨t, ngTcpDispatch_cases ?_ hfind hdispatch, h.2.symm⟩
        simpa using hcksum

/--
The fragments that went out for the stream at `a`.
-/
def framesOf (a : Addr) (frames : List TcpFrame) : List NgTcpFragment :=
  (frames.filter (fun f => f.stream == a)).map TcpFrame.fragment

/--
What a pass of `ng_tcp_out` does to a stream, and the fragments it sends.
-/
inductive StreamOut (arpt : ArpTable Int) (st : NgTcpStream) : List NgTcpFragment → NgTcpStream → Prop where
  | idle (hempty : st.sndItems = []) : StreamOut arpt st [] st
  | requeued {f : NgTcpFragment} {rest : List NgTcpFragment} {sndbuf : RteRing NgTcpFragment}
    (h : st.sndItems = f :: rest) (h' : sndbuf.items = rest ++ [f])
    (hmiss : ngGetDstMacaddr arpt st.sip = none)
    : StreamOut arpt st [] { st with sndbuf := some sndbuf }
  | sent {f : NgTcpFragment} {sndbuf : RteRing NgTcpFragment}
    (h : st.sndItems = f :: sndbuf.items) (hmac : (ngGetDstMacaddr arpt st.sip).isSome = true)
    : StreamOut arpt st [f] { st with sndbuf := some sndbuf }

theorem ngTcpOutStream_cases {alloc room : Bool} {arpt : ArpTable Int} {a : Addr} {st st' : NgTcpStream}
    {frames : List TcpFrame} (h : ngTcpOutStream alloc room arpt a st = .ok (st', frames))
    : StreamOut arpt st (framesOf a frames) st' ∧ ∀ f ∈ frames, f.stream = a := by
  unfold ngTcpOutStream at h
  split at h
  . next hsnd =>
    simp only [Except.ok.injEq, Prod.mk.injEq] at h
    rcases h with ⟨rfl, rfl⟩
    exact ⟨.idle (by simp [NgTcpStream.sndItems, hsnd]), by simp⟩
  . next sndbuf hsnd =>
    split at h
    . next hdeq =>
      simp only [Except.ok.injEq, Prod.mk.injEq] at h
      rcases h with ⟨rfl, rfl⟩
      rw [rteRingMcDequeue_eq_none_iff] at hdeq
      exact ⟨.idle (by simp [NgTcpStream.sndItems, hsnd, hdeq]), by simp⟩
    . next f rest hdeq =>
      have hitems : st.sndItems = f :: rest.items := by
        simp only [NgTcpStream.sndItems, hsnd, Option.map_some, Option.getD_some]
        exact (rteRingMcDequeue_eq_some_iff.mp hdeq).1
      split at h
      . contradiction
      . split at h
        . next hmiss =>
          simp only [Except.ok.injEq, Prod.mk.injEq] at h
          rcases h with ⟨rfl, rfl⟩
          exact ⟨.requeued hitems (items_enqueue_of_dequeue hdeq f) hmiss, by simp⟩
        . next dstmac hmac =>
          simp only [Except.ok.injEq, Prod.mk.injEq] at h
          rcases h with ⟨rfl, rfl⟩
          constructor
          . simp only [framesOf, BEq.rfl, List.filter_cons_of_pos, List.filter_nil, List.map_cons,
              List.map_nil]
            exact .sent hitems (by simp [hmac])
          . simp

theorem sent_of_ngTcpOutStream {alloc room : Bool} {arpt : ArpTable Int} {a : Addr} {st st' : NgTcpStream}
    {frames : List TcpFrame} (h : ngTcpOutStream alloc room arpt a st = .ok (st', frames))
    : ∀ f ∈ frames, f.stream = a ∧ f.sent = room := by
  unfold ngTcpOutStream at h
  split at h
  . cases h
    simp
  . split at h
    . cases h
      simp
    . split at h
      . contradiction
      . split at h
        . cases h
          simp
        . cases h
          simp

/-- `ring->out` takes a frame exactly when it has room as the pass comes to the stream. -/
theorem sent_of_ngTcpOutLoop {env : Env} {as : List Addr} {s s' : Stack} {frames : List TcpFrame}
    (h : ngTcpOutLoop env as s = .ok (s', frames)) : ∀ f ∈ frames, f.sent = env.outRoom f.stream := by
  induction as generalizing s frames with
  | nil =>
    cases h
    simp
  | cons a as ih =>
    unfold ngTcpOutLoop at h
    split at h
    . exact ih h
    . split at h
      . contradiction
      . next hout =>
        split at h
        . contradiction
        . next hloop =>
          cases h
          intro f hf
          rw [List.mem_append] at hf
          rcases hf with hf | hf
          . rcases sent_of_ngTcpOutStream hout f hf with ⟨hstream, hsent⟩
            rw [hsent, hstream]
          . exact ih hloop f hf

theorem StreamOut.frames_eq {arpt : ArpTable Int} {st st' : NgTcpStream} {frames : List NgTcpFragment}
    (h : StreamOut arpt st frames st')
    : frames = if (ngGetDstMacaddr arpt st.sip).isSome then st.sndItems.take 1 else [] := by
  cases h with
  | idle hempty => simp [hempty]
  | requeued _ _ hmiss => simp [hmiss]
  | sent h hmac => simp [h, hmac]

theorem framesOf_append (a : Addr) (frames frames' : List TcpFrame)
    : framesOf a (frames ++ frames') = framesOf a frames ++ framesOf a frames' := by
  simp [framesOf]

theorem framesOf_eq_nil {a b : Addr} {frames : List TcpFrame} (h : ∀ f ∈ frames, f.stream = a)
    (hne : b ≠ a) : framesOf b frames = [] := by
  unfold framesOf
  rw [List.map_eq_nil_iff, List.filter_eq_nil_iff]
  intro f hf
  rw [h f hf, beq_iff_eq]
  exact fun heq => hne heq.symm

/--
What a pass over the streams at `as` does to the stack.
-/
structure PassedOut (as : List Addr) (s : Stack) (frames : List TcpFrame) (s' : Stack) : Prop where
  rest : s' = { s with table.tcbSet := s'.table.tcbSet }
  addrs : s'.table.tcbSet.addrs = s.table.tcbSet.addrs
  next : s'.table.tcbSet.next = s.table.tcbSet.next
  others : ∀ b, b ∉ as → s'.stream? b = s.stream? b ∧ framesOf b frames = []
  streams : ∀ b ∈ as, ∀ st, s.stream? b = some st
    → ∃ st', s'.stream? b = some st' ∧ StreamOut s.arpt st (framesOf b frames) st'

theorem ngTcpOutLoop_cases {env : Env} {as : List Addr} {s s' : Stack} {frames : List TcpFrame}
    (hnodup : as.Nodup) (h : ngTcpOutLoop env as s = .ok (s', frames))
    : PassedOut as s frames s' := by
  -- No address comes twice, so the rest of the pass leaves the stream at the head as this round has left it.
  induction as generalizing s frames with
  | nil =>
    simp only [ngTcpOutLoop, Except.ok.injEq, Prod.mk.injEq] at h
    rcases h with ⟨rfl, rfl⟩
    exact ⟨rfl, rfl, rfl, fun _ _ => ⟨rfl, rfl⟩, by simp⟩
  | cons a as ih =>
    have hnot := (List.nodup_cons.mp hnodup).1
    unfold ngTcpOutLoop at h
    split at h
    . next hnone =>
      have hpass := ih hnodup.of_cons h
      refine ⟨hpass.rest, hpass.addrs, hpass.next, ?_, ?_⟩
      . intro b hb
        exact hpass.others b (fun hmem => hb (List.mem_cons_of_mem a hmem))
      . intro b hb st hst
        rw [List.mem_cons] at hb
        rcases hb with rfl | hb
        . rw [hnone] at hst
          contradiction
        . exact hpass.streams b hb st hst
    . next st hst =>
      split at h
      . contradiction
      . next st1 frame hout =>
        split at h
        . contradiction
        . next s1 frames1 hloop =>
          simp only [Except.ok.injEq, Prod.mk.injEq] at h
          rcases h with ⟨rfl, rfl⟩
          have hpass := ih hnodup.of_cons hloop
          rcases ngTcpOutStream_cases hout with ⟨hstream, hframe⟩
          refine ⟨hpass.rest, ?_, hpass.next, ?_, ?_⟩
          . rw [hpass.addrs]
            simp [Stack.modifyStream]
          . intro b hb
            simp only [List.mem_cons, not_or] at hb
            rcases hpass.others b hb.2 with ⟨hget, hframes⟩
            rw [hget, framesOf_append, framesOf_eq_nil hframe hb.1, hframes]
            simp [stream?_modifyStream, hb.1]
          . intro b hb st' hst'
            rw [framesOf_append]
            by_cases heq : b = a
            . subst heq
              rw [hst] at hst'
              cases hst'
              rcases hpass.others b hnot with ⟨hget, hframes⟩
              refine ⟨st1, ?_, ?_⟩
              . rw [hget, stream?_modifyStream_self, hst]
                rfl
              . rw [hframes, List.append_nil]
                exact hstream
            . rw [framesOf_eq_nil hframe heq, List.nil_append]
              apply hpass.streams b (List.mem_of_ne_of_mem heq hb)
              rw [stream?_modifyStream, if_neg heq]
              exact hst'

theorem ngTcpOut_cases {env : Env} {s s' : Stack} {frames : List TcpFrame}
    (h : ngTcpOut env s = .ok (s', frames)) : PassedOut s.table.tcbSet.addrs s frames s' :=
  ngTcpOutLoop_cases s.table.tcbSet.nodup h

theorem PassedOut.stream? {s s' : Stack} {frames : List TcpFrame}
    (h : PassedOut s.table.tcbSet.addrs s frames s') (a : Addr)
    : s.stream? a = none ∧ s'.stream? a = none ∧ framesOf a frames = []
      ∨ ∃ st st', s.stream? a = some st ∧ s'.stream? a = some st'
          ∧ StreamOut s.arpt st (framesOf a frames) st' := by
  cases hst : s.stream? a with
  | none =>
    have hnot := (ObjList.get?_eq_none_iff _ _).mp hst
    rcases h.others a hnot with ⟨hget, hframes⟩
    rw [hst] at hget
    exact .inl ⟨rfl, hget, hframes⟩
  | some st =>
    have hmem := ObjList.mem_addrs_of_get? hst
    rcases h.streams a hmem st hst with ⟨st', hst', hout⟩
    exact .inr ⟨st, st', rfl, hst', hout⟩

end NgStack
