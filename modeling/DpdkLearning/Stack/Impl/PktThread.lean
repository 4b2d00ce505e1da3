import DpdkLearning.Stack.Impl.PktProcess
import DpdkLearning.Stack.Impl.System

/-!
This module contains `pkt_process` one step after the other, and the machine in which its thread shares
the stack with the calls of the applications. A pass over the send buffers takes an item from a ring in
one step and sends it or puts it back in the next.
-/

open Lib

namespace NgStack

/--
The calls that an application makes.
-/
def Act.isCall : Act → Bool
  | .nsocket .. | .nbind .. | .nlisten .. | .naccept .. | .nsend .. | .nrecv .. | .nsendto ..
  | .nrecvfrom .. | .nclose .. | .nepollCreate .. | .nepollCtl .. | .nepollWait .. => true
  | _ => false

abbrev Call := { act : Act // act.isCall = true }

/--
What `pkt_process` does next. `mbufs` are the packets of the burst it has not come to yet, `hosts` and
`streams` what the pass has not come to.
-/
inductive PktPc where
  | dequeueBurst
  | packets (mbufs : List Mbuf)
  | process (m : Mbuf) (mbufs : List Mbuf)
  | udpOut (hosts : List Addr)
  | udpSend (a : Addr) (ol : Offload) (hosts : List Addr)
  | tcpOut (streams : List Addr)
  | tcpSend (a : Addr) (fragment : NgTcpFragment) (streams : List Addr)

structure PktSys where
  stack : Stack
  pc : PktPc

/--
The first part of `udp_out` on one socket, up to the dequeue.
-/
def udpOutDequeue (host : Localhost) : Except Halt (Option (Offload × Localhost)) :=
  match host.sndbuf with
  | none => .error .nullPointer
  | some sndbuf =>
    match rteRingMcDequeue sndbuf with
    | none => .ok none
    | some (ol, sndbuf) => .ok (some (ol, { host with sndbuf := some sndbuf }))

/--
The rest of it.
-/
def udpOutSend (alloc room : Bool) (arpt : ArpTable Int) (a : Addr) (host : Localhost) (ol : Offload)
    : Except Halt (Localhost × List UdpFrame) :=
  if !alloc then
    .error .exited
  else
    match ngGetDstMacaddr arpt ol.dip with
    | none =>
      match host.sndbuf with
      | none => .error .nullPointer
      | some sndbuf => .ok ({ host with sndbuf := some (rteRingMpEnqueue sndbuf ol) }, [])
    | some dstmac => .ok (host, [{ host := a, srcmac := host.localmac, dstmac, ol, sent := room }])

/--
The first part of `ng_tcp_out` on one stream, up to the dequeue.
-/
def ngTcpOutDequeue (stream : NgTcpStream) : Option (NgTcpFragment × NgTcpStream) :=
  match stream.sndbuf with
  | none => none
  | some sndbuf =>
    match rteRingMcDequeue sndbuf with
    | none => none
    | some (fragment, sndbuf) => some (fragment, { stream with sndbuf := some sndbuf })

/--
The rest of it.
-/
def ngTcpOutSend (alloc room : Bool) (arpt : ArpTable Int) (a : Addr) (stream : NgTcpStream)
    (fragment : NgTcpFragment) : Except Halt (NgTcpStream × List TcpFrame) :=
  if !alloc then
    .error .exited
  else
    match ngGetDstMacaddr arpt stream.sip with
    | none =>
      match stream.sndbuf with
      | none => .error .nullPointer
      | some sndbuf => .ok ({ stream with sndbuf := some (rteRingMpEnqueue sndbuf fragment) }, [])
    | some dstmac =>
      .ok (stream, [{
        stream := a
        sip := stream.dip
        dip := stream.sip
        srcmac := stream.localmac
        dstmac
        fragment
        sent := room }])

namespace PktSys

def init : PktSys where
  stack := .init
  pc := .dequeueBurst

/--
The thread goes on without a look at the stack.
-/
def goto (sys : PktSys) (pc : PktPc) : Except Halt (PktSys × Out) :=
  .ok ({ sys with pc }, { ret := 0 })

def run (sys : PktSys) (act : Act) (pc : PktPc) : Except Halt (PktSys × Out) :=
  (sys.stack.step act).map (fun (stack, out) => ({ stack, pc }, out))

/--
The next step of `pkt_process`, with `ring` on the ring of received packets. A socket or stream that is
gone when the pass comes to it was taken out of the list; one that goes while the pass is at it leaves
it with a wild pointer.
-/
def pktProcess (sys : PktSys) (env : Env) (ring : List Mbuf) : Except Halt (PktSys × Out) :=
  let s := sys.stack
  match sys.pc with
  | .dequeueBurst => sys.goto (.packets (ring.take burstSize))
  | .packets [] => sys.goto (.udpOut s.lhost.addrs)
  | .packets (m :: mbufs) =>
    if m.eth.etherType == htons rteEtherTypeIpv4 then
      sys.run (.ngArpEntryInsert (env.rteMalloc 0) m.ip.srcAddr m.eth.sAddr) (.process m mbufs)
    else
      sys.goto (.packets mbufs)
  | .process m mbufs =>
    if m.ip.nextProtoId = ipprotoUdp then
      sys.run (.udpProcess env m) (.packets mbufs)
    else if m.ip.nextProtoId = ipprotoTcp then
      sys.run (.ngTcpProcess env m) (.packets mbufs)
    else
      sys.goto (.packets mbufs)
  | .udpOut [] => sys.goto (.tcpOut s.table.tcbSet.addrs)
  | .udpOut (a :: hosts) =>
    match s.lhost.get? a with
    | none => sys.goto (.udpOut hosts)
    | some host =>
      match udpOutDequeue host with
      | .error e => .error e
      | .ok none => sys.goto (.udpOut hosts)
      | .ok (some (ol, host)) =>
        .ok ({
          stack := { s with lhost := s.lhost.modify a (fun _ => host) }
          pc := .udpSend a ol hosts }, { ret := 0 })
  | .udpSend a ol hosts =>
    match s.lhost.get? a with
    | none => .error .wildPointer
    | some host =>
      match udpOutSend (env.rtePktmbufAlloc a) (env.outRoom a) s.arpt a host ol with
      | .error e => .error e
      | .ok (host, udpFrames) =>
        .ok ({
          stack := { s with lhost := s.lhost.modify a (fun _ => host) }
          pc := .udpOut hosts }, { ret := 0, udpFrames })
  | .tcpOut [] => sys.goto .dequeueBurst
  | .tcpOut (a :: streams) =>
    match s.stream? a with
    | none => sys.goto (.tcpOut streams)
    | some stream =>
      match ngTcpOutDequeue stream with
      | none => sys.goto (.tcpOut streams)
      | some (fragment, stream) =>
        .ok ({
          stack := s.modifyStream a (fun _ => stream)
          pc := .tcpSend a fragment streams }, { ret := 0 })
  | .tcpSend a fragment streams =>
    match s.stream? a with
    | none => .error .wildPointer
    | some stream =>
      match ngTcpOutSend (env.rtePktmbufAlloc a) (env.outRoom a) s.arpt a stream fragment with
      | .error e => .error e
      | .ok (stream, tcpFrames) =>
        .ok ({
          stack := s.modifyStream a (fun _ => stream)
          pc := .tcpOut streams }, { ret := 0, tcpFrames })

inductive Turn where
  | call (c : Call)
  | pktProcess (env : Env) (ring : List Mbuf)

def step (sys : PktSys) : Turn → Except Halt (PktSys × Out)
  | .call c => sys.run c.1 sys.pc
  | .pktProcess env ring => sys.pktProcess env ring

end PktSys

def pktMachine : Machine PktSys PktSys.Turn Out Halt where
  step := PktSys.step

abbrev PktStep := Edge PktSys PktSys.Turn Out

abbrev PktRun := Machine.Run pktMachine

end NgStack
