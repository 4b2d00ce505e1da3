import DpdkLearning.Stack.Impl.Tcp
import DpdkLearning.Stack.Impl.Udp

/-!
This module contains one round of `pkt_process`, which takes the received packets off their ring, hands
each one on and sends what is queued.
-/

open Lib

namespace NgStack

def burstSize : Nat := 32

/--
Whom `pkt_process` hands packets to.
-/
inductive Taker where
  | udpProcess
  | ngTcpProcess
  | rteKniTxBurst
  deriving DecidableEq, Repr

/--
One handing over of packets, with what had been given back to the mempool until then.
-/
structure Handover where
  taker : Taker
  mbufs : List Addr
  mempool : List Addr
  deriving DecidableEq, Repr

/--
The outside for what comes after `ng_arp_entry_insert`, which allocates for an address it does not know.
-/
def Env.afterArp (env : Env) (arpt : ArpTable Int) (ip : UInt32) : Env :=
  if (ngGetDstMacaddr arpt ip).isNone then env.after 1 else env

/--
What `pkt_process` does for the packet `m` of the burst `mbufs`. The packets that are for the kernel go to
`rte_kni_tx_burst`, which is handed the whole burst each time.
-/
def pktProcessPacket (env : Env) (mbufs : List Mbuf) (s : Stack) (m : Mbuf)
    : Except Halt (Stack × Handover) :=
  if m.eth.etherType == htons rteEtherTypeIpv4 then
    let (_, arpt) := ngArpEntryInsert (env.rteMalloc 0) s.arpt m.ip.srcAddr m.eth.sAddr
    let env := env.afterArp s.arpt m.ip.srcAddr
    let s := { s with arpt }
    if m.ip.nextProtoId = ipprotoUdp then
      match udpProcess env s m with
      | .error e => .error e
      | .ok (_, s') => .ok (s', ⟨.udpProcess, [m.addr], s.mempool⟩)
    else if m.ip.nextProtoId = ipprotoTcp then
      match ngTcpProcess env s m with
      | .error e => .error e
      | .ok (_, s') => .ok (s', ⟨.ngTcpProcess, [m.addr], s.mempool⟩)
    else
      .ok (s, ⟨.rteKniTxBurst, mbufs.map Mbuf.addr, s.mempool⟩)
  else
    .ok (s, ⟨.rteKniTxBurst, mbufs.map Mbuf.addr, s.mempool⟩)

/--
The `for` loop from the packet with the index `i` on.
-/
def pktProcessLoop (envs : Nat → Env) (mbufs : List Mbuf)
    : Nat → List Mbuf → Stack → Except Halt (Stack × List Handover)
  | _, [], s => .ok (s, [])
  | i, m :: ms, s =>
    match pktProcessPacket (envs i) mbufs s m with
    | .error e => .error e
    | .ok (s, handover) =>
      match pktProcessLoop envs mbufs (i + 1) ms s with
      | .error e => .error e
      | .ok (s, handovers) => .ok (s, handover :: handovers)

structure PktRound where
  handovers : List Handover
  udpFrames : List UdpFrame
  tcpFrames : List TcpFrame
  -- What is left on the ring of received packets.
  rest : List Mbuf

/--
One round of `pkt_process` on the ring of received packets.
-/
def pktProcess (envs : Nat → Env) (outEnv : Env) (s : Stack) (ring : List Mbuf)
    : Except Halt (Stack × PktRound) :=
  let mbufs := ring.take burstSize
  match pktProcessLoop envs mbufs 0 mbufs s with
  | .error e => .error e
  | .ok (s, handovers) =>
    match udpOut outEnv s with
    | .error e => .error e
    | .ok (s, udpFrames) =>
      match ngTcpOut outEnv s with
      | .error e => .error e
      | .ok (s, tcpFrames) =>
        .ok (s, { handovers, udpFrames, tcpFrames, rest := ring.drop burstSize })

end NgStack
