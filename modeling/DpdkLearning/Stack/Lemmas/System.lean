import DpdkLearning.Stack.Impl.System
import DpdkLearning.Stack.Lemmas.Socket

/-!
This module contains what one step of the machine can do to the stack, and what that means for the
event poll and for a single stream.
-/

open Lib

namespace NgStack

/--
What a step does to the stack.
-/
inductive Stepped (s : Stack) : Act → Out → Stack → Prop where
  | nsocket {env : Env} {type r : Int} {s' : Stack} (h : NsocketDone env s type (r, s'))
    : Stepped s (.nsocket env type) { ret := r } s'
  | nbind {sockfd r : Int} {sinPort : UInt16} {sAddr : UInt32} {s' : Stack}
    (h : NbindDone s sockfd sinPort sAddr s') : Stepped s (.nbind sockfd sinPort sAddr) { ret := r } s'
  | nlisten {sockfd r : Int} {s' : Stack}
    (h : s' = s ∨ ∃ a st, getHostinfoFromfd s sockfd = some (.stream a st)
      ∧ s' = s.modifyStream a (fun st => { st with status := .listen }))
    : Stepped s (.nlisten sockfd) { ret := r } s'
  | naccept {sockfd r : Int} {peer : Option (UInt16 × UInt32)} {s' : Stack}
    (h : NacceptDone s sockfd r s') : Stepped s (.naccept sockfd) { ret := r, peer } s'
  | nsend {env : Env} {sockfd r : Int} {buf : List UInt8} {s' : Stack}
    (h : NsendDone env s sockfd buf s') : Stepped s (.nsend env sockfd buf) { ret := r } s'
  | nrecv {sockfd r : Int} {buf buf' : Nat → UInt8} {len : Nat} {s' : Stack}
    (h : nrecv s sockfd buf len = .ok (r, buf', s'))
    : Stepped s (.nrecv sockfd buf len) { ret := r, buf := buf' } s'
  | nsendto {env : Env} {sockfd r : Int} {buf : List UInt8} {sinPort : UInt16} {sAddr : UInt32}
    {s' : Stack} (h : SameHosts s s')
    : Stepped s (.nsendto env sockfd buf sinPort sAddr) { ret := r } s'
  | nrecvfrom {env : Env} {sockfd r : Int} {buf buf' : Nat → UInt8} {len : Nat}
    {peer : Option (UInt16 × UInt32)} {s' : Stack} (h : SameHosts s s')
    : Stepped s (.nrecvfrom env sockfd buf len) { ret := r, buf := buf', peer } s'
  | nclose {env : Env} {fd r : Int} {s' : Stack} (h : NcloseDone env s fd s')
    : Stepped s (.nclose env fd) { ret := r } s'
  | nepollCreate {env : Env} {size r : Int} {s' : Stack} (h : NepollCreated env s size (r, s'))
    : Stepped s (.nepollCreate env size) { ret := r } s'
  | nepollCtl {env : Env} {epfd op sockid r : Int} {event : Option EpollEvent} {s' : Stack}
    (h : NepollCtled env s epfd op sockid event s')
    : Stepped s (.nepollCtl env epfd op sockid event) { ret := r } s'
  | nepollWait {env : Env} {epfd maxevents timeout r : Int} {events : List EpollEvent} {s' : Stack}
    (h : s' = s ∧ events = []
      ∨ ∃ ep ep', getHostinfoFromfd s epfd = some (.ep ep) ∧ Popped ep events ep' ∧ r = events.length ∧ s' = s.setEp ep')
    : Stepped s (.nepollWait env epfd maxevents timeout) { ret := r, events } s'
  | epollEventCallback {sockid r : Int} {event : UInt32} {e ep' : Eventpoll}
    (hep : s.table.ep = some e) (hsig : Signalled e sockid event ep')
    : Stepped s (.epollEventCallback sockid event) { ret := r } (s.setEp ep')
  | ngArpEntryInsert {malloc : Bool} {ip : UInt32} {mac : MacAddr} {r : Int} {arpt : ArpTable Int}
    : Stepped s (.ngArpEntryInsert malloc ip mac) { ret := r } { s with arpt }
  | udpProcess {env : Env} {m : Mbuf} {r : Int} {s' : Stack} (h : SameHosts s s')
    : Stepped s (.udpProcess env m) { ret := r } s'
  | ngTcpProcess {env : Env} {m : Mbuf} {r : Int} {t : Stack} (h : SegmentProcessed env s m t)
    : Stepped s (.ngTcpProcess env m) { ret := r } (t.rtePktmbufFree m)
  | udpOut {env : Env} {r : Int} {udpFrames : List UdpFrame} {s' : Stack} (h : SameHosts s s')
    : Stepped s (.udpOut env) { ret := r, udpFrames } s'
  | ngTcpOut {env : Env} {r : Int} {tcpFrames : List TcpFrame} {s' : Stack}
    (h : PassedOut s.table.tcbSet.addrs s tcpFrames s')
    : Stepped s (.ngTcpOut env) { ret := r, tcpFrames } s'

theorem map_eq_ok {ε α β : Type} {x : Except ε α} {f : α → β} {y : β} (h : x.map f = .ok y)
    : ∃ a, x = .ok a ∧ f a = y := by
  cases x with
  | error e => contradiction
  | ok a => exact ⟨a, rfl, Except.ok.inj h⟩

theorem stepped_of_step {s s' : Stack} {act : Act} {out : Out}
    (h : machine.step s act = .ok (s', out)) : Stepped s act out s' := by
  cases act with
  | nsocket env type =>
    cases h
    exact .nsocket (nsocket_cases env s type)
  | nbind sockfd sinPort sAddr =>
    rcases map_eq_ok h with ⟨⟨r, t⟩, hcall, hout⟩
    cases hout
    exact .nbind (nbind_cases hcall)
  | nlisten sockfd =>
    rcases map_eq_ok h with ⟨⟨r, t⟩, hcall, hout⟩
    cases hout
    exact .nlisten (nlisten_cases hcall)
  | naccept sockfd =>
    rcases map_eq_ok h with ⟨⟨r, peer, t⟩, hcall, hout⟩
    cases hout
    exact .naccept (naccept_cases hcall)
  | nsend env sockfd buf =>
    rcases map_eq_ok h with ⟨⟨r, t⟩, hcall, hout⟩
    cases hout
    exact .nsend (nsend_cases hcall)
  | nrecv sockfd buf len =>
    rcases map_eq_ok h with ⟨⟨r, buf', t⟩, hcall, hout⟩
    cases hout
    exact .nrecv hcall
  | nsendto env sockfd buf sinPort sAddr =>
    rcases map_eq_ok h with ⟨⟨r, t⟩, hcall, hout⟩
    cases hout
    exact .nsendto (nsendto_cases hcall)
  | nrecvfrom env sockfd buf len =>
    rcases map_eq_ok h with ⟨⟨r, buf', peer, t⟩, hcall, hout⟩
    cases hout
    exact .nrecvfrom (nrecvfrom_cases hcall)
  | nclose env fd =>
    rcases map_eq_ok h with ⟨⟨r, t⟩, hcall, hout⟩
    cases hout
    exact .nclose (nclose_cases hcall)
  | nepollCreate env size =>
    rcases map_eq_ok h with ⟨⟨r, t⟩, hcall, hout⟩
    cases hout
    exact .nepollCreate (nepollCreate_cases hcall)
  | nepollCtl env epfd op sockid event =>
    rcases map_eq_ok h with ⟨⟨r, t⟩, hcall, hout⟩
    cases hout
    exact .nepollCtl (nepollCtl_cases hcall)
  | nepollWait env epfd maxevents timeout =>
    rcases map_eq_ok h with ⟨⟨r, events, t⟩, hcall, hout⟩
    cases hout
    exact .nepollWait (nepollWait_cases hcall)
  | epollEventCallback sockid event =>
    rcases map_eq_ok h with ⟨⟨r, ep⟩, hcall, hout⟩
    cases hout
    rcases epollEventCallback_cases hcall with ⟨e, hep, hsig⟩
    exact .epollEventCallback hep hsig
  | ngArpEntryInsert malloc ip mac =>
    cases h
    exact .ngArpEntryInsert
  | udpProcess env m =>
    rcases map_eq_ok h with ⟨⟨r, t⟩, hcall, hout⟩
    cases hout
    exact .udpProcess (udpProcess_cases hcall)
  | ngTcpProcess env m =>
    rcases map_eq_ok h with ⟨⟨r, t⟩, hcall, hout⟩
    cases hout
    rcases ngTcpProcess_cases hcall with ⟨t, ht, rfl⟩
    exact .ngTcpProcess ht
  | udpOut env =>
    rcases map_eq_ok h with ⟨⟨t, frames⟩, hcall, hout⟩
    cases hout
    exact .udpOut (udpOutLoop_cases hcall)
  | ngTcpOut env =>
    rcases map_eq_ok h with ⟨⟨t, frames⟩, hcall, hout⟩
    cases hout
    exact .ngTcpOut (ngTcpOut_cases hcall)

/--
How the event poll moves once it is there and its items are not added or deleted.
-/
inductive EpMoved : Option Eventpoll → Option Eventpoll → Prop where
  | same (ep : Option Eventpoll) : EpMoved ep ep
  | signalled {e e' : Eventpoll} {sockid : Int} {event : UInt32}
    (h : Signalled e sockid event e') : EpMoved (some e) (some e')
  | popped {e e' : Eventpoll} {events : List EpollEvent}
    (h : Popped e events e') : EpMoved (some e) (some e')
  | trans {ep1 ep2 ep3 : Option Eventpoll} (h1 : EpMoved ep1 ep2) (h2 : EpMoved ep2 ep3)
    : EpMoved ep1 ep3

theorem SegmentHandled.epMoved {env : Env} {m : Mbuf} {st st' : NgTcpStream}
    {ep ep' : Option Eventpoll} (h : SegmentHandled env m st ep st' ep') : EpMoved ep ep' := by
  cases h with
  | neither _ _ => exact .same ep
  | psh _ _ _ hep hsig =>
    rw [hep]
    exact .signalled hsig
  | fin _ _ _ hep hsig =>
    rw [hep]
    exact .signalled hsig
  | both _ _ _ _ hep hsig1 hsig2 =>
    rw [hep]
    exact .trans (.signalled hsig1) (.signalled hsig2)

theorem SegmentProcessed.epMoved {env : Env} {s s' : Stack} {m : Mbuf}
    (h : SegmentProcessed env s m s') : EpMoved s.table.ep s'.table.ep := by
  cases h with
  | handshake _ _ _ _ _ hep hsig =>
    rw [hep]
    exact .signalled hsig
  | segment _ _ _ h => exact h.epMoved
  | ignored | halfOpen | synAck | lastAck => exact .same s.table.ep

theorem SameHosts.table_eq {s s' : Stack} (h : SameHosts s s') : s'.table = s.table := by
  rcases h.rest with ⟨_, _, rfl⟩
  rfl

theorem epMoved_of_stepped {s s' : Stack} {act : Act} {out : Out} (h : Stepped s act out s')
    (hcreate : ∀ env size, act ≠ .nepollCreate env size)
    (hctl : ∀ env epfd op sockid event, act ≠ .nepollCtl env epfd op sockid event)
    : EpMoved s.table.ep s'.table.ep := by
  cases h with
  | nsocket h => cases h <;> exact .same s.table.ep
  | nbind h =>
    cases h with
    | host h =>
      rw [h.table_eq]
      exact .same s.table.ep
    | same | stream => exact .same s.table.ep
  | nlisten h =>
    rcases h with rfl | ⟨_, _, _, rfl⟩ <;> exact .same _
  | naccept h => cases h <;> exact .same s.table.ep
  | nsend h => cases h <;> exact .same s.table.ep
  | nrecv h =>
    rcases nrecv_cases h with ⟨rfl, _⟩ | ⟨_, _, _, _, _, _, _, _, rfl⟩ <;> exact .same _
  | nclose h => cases h <;> exact .same s.table.ep
  | nepollCreate h => exact absurd rfl (hcreate _ _)
  | nepollCtl h => exact absurd rfl (hctl _ _ _ _ _)
  | nepollWait h =>
    rcases h with ⟨rfl, _⟩ | ⟨ep, ep', hinfo, hpop, _, rfl⟩
    . exact .same _
    . rw [(getHostinfoFromfd_ep hinfo).1]
      exact .popped hpop
  | epollEventCallback hep hsig =>
    rw [hep]
    exact .signalled hsig
  | ngArpEntryInsert => exact .same s.table.ep
  | ngTcpProcess h => exact h.epMoved
  | ngTcpOut h =>
    rw [h.rest]
    exact .same s.table.ep
  | nsendto h | nrecvfrom h | udpProcess h | udpOut h =>
    rw [h.table_eq]
    exact .same s.table.ep

/--
An outside that grants everything and hands out memory that holds zeros.
-/
def Env.granting : Env where
  rteMalloc := fun _ => true
  rteRingCreate := fun _ => true
  pthreadInit := fun _ => true
  pthreadCondTimedwait := true
  rtePktmbufAlloc := fun _ => true
  ringOut := fun _ => 0
  randR := 1000
  rteIpv4UdptcpCksum := fun _ => 0
  heap := fun _ => 0
  staleFragment := .zero
  staleStream := {
    fd := 0
    dip := 0
    localmac := .replicate 6 0
    dport := 0
    protocol := 0
    sport := 0
    sip := 0
    sndNxt := 0
    rcvNxt := 0
    status := .closed
    sndbuf := none
    rcvbuf := none
  }
  staleEpitem := { rdy := 0, sockfd := 0, event := { events := 0, fd := 0 } }
  staleEventpoll := { fd := 0, rbr := .empty, rbcnt := 0, rdlist := [], rdnum := 0 }

/--
A segment from port `sport` of host 7 to port 9999 of host 8.
-/
def Mbuf.segment (sport : UInt16) (tcpFlags : UInt8) (seq ack : UInt32) (payload : List UInt8)
    : Mbuf where
  addr := 0
  eth := { sAddr := .replicate 6 1, etherType := htons rteEtherTypeIpv4 }
  ip := {
    totalLength := htons (UInt16.ofNat (40 + payload.length))
    nextProtoId := ipprotoTcp
    srcAddr := 7
    dstAddr := 8
  }
  tcp := {
    srcPort := htons sport
    dstPort := htons 9999
    sentSeq := htonl seq
    recvAck := htonl ack
    dataOff := 0x50
    tcpFlags
    cksum := 0
  }
  udp := { srcPort := 0, dstPort := 0, dgramLen := 0 }
  l4 := fun i => payload.getD (i - 20) 0

/--
The calls that bring up a server on port 9999. Its socket gets the descriptor 3, its event poll 4.
-/
def serverUp : List Act := [
  .nsocket .granting sockStream,
  .nbind 3 (htons 9999) 0,
  .nlisten 3,
  .nepollCreate .granting 1,
  .nepollCtl .granting 4 epollCtlAdd 3 (some { events := epollin, fd := 3 })
]

/--
The segments with which a client connects. The server starts at sequence number 1000.
-/
def connect (sport : UInt16) : List Act := [
  .ngTcpProcess .granting (.segment sport rteTcpSynFlag 100 0 []),
  .ngTcpProcess .granting (.segment sport rteTcpAckFlag 101 1001 [])
]

end NgStack
