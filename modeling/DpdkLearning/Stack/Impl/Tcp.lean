import DpdkLearning.Stack.Impl.Epoll

/-!
This module contains what the packet side does for TCP: the handlers of the connection states, their
dispatch and the pass that sends what is queued.
-/

open Lib

namespace NgStack

def ngTcpRingName (kind : String) (sip : UInt32) (sport : UInt16) : RingName :=
  kind.toList ++ Nat.toDigits 16 sip.toNat ++ Nat.toDigits 10 sport.toNat

/--
`ng_tcp_stream_create`: the stream, unless its memory is refused, and the names of the rings there
are then. A ring that cannot be created is a `NULL` in the stream.
-/
def ngTcpStreamCreate (env : Env) (s : Stack) (sip dip : UInt32) (sport dport : UInt16)
    : Option NgTcpStream × List RingName :=
  if !env.rteMalloc 0 then
    (none, s.ringNames)
  else
    let (sndbuf, names) :=
      rteRingCreate (env.rteRingCreate 0) s.ringNames (ngTcpRingName "sndbuf" sip sport)
    let (rcvbuf, names) :=
      rteRingCreate (env.rteRingCreate 1) names (ngTcpRingName "bufname" sip sport)
    (some { env.staleStream with
      sip
      dip
      sport
      dport
      protocol := ipprotoTcp
      fd := -1
      status := .listen
      sndbuf
      rcvbuf
      sndNxt := env.randR % tcpMaxSeq
      localmac := s.gSrcMac }, names)

def synAckFragment (syn : NgTcpStream) (tcphdr : RteTcpHdr) : NgTcpFragment :=
  { NgTcpFragment.zero with
    sport := tcphdr.dstPort
    dport := tcphdr.srcPort
    seqnum := syn.sndNxt
    acknum := ntohl tcphdr.sentSeq + 1
    tcpFlags := rteTcpSynFlag ||| rteTcpAckFlag
    windows := tcpInitialWindow
    hdrlenOff := 0x50
    data := none
    length := 0 }

def ngTcpHandleListen (env : Env) (s : Stack) (stream : NgTcpStream) (tcphdr : RteTcpHdr)
    (iphdr : RteIpv4Hdr) : Except Halt (Int × Stack) :=
  if hasFlag tcphdr.tcpFlags rteTcpSynFlag then
    if stream.status = .listen then
      match ngTcpStreamCreate env s iphdr.srcAddr iphdr.dstAddr tcphdr.srcPort tcphdr.dstPort with
      -- `LL_ADD` writes the links of the new stream.
      | (none, _) => .error .nullPointer
      | (some syn, names) =>
        let a := s.table.tcbSet.next
        let s := { s with ringNames := names, table.tcbSet := s.table.tcbSet.add syn }
        if !env.rteMalloc 1 then
          .ok (-1, s)
        else
          match syn.sndbuf with
          | none => .error .nullPointer
          | some sndbuf =>
            let fragment := synAckFragment syn tcphdr
            .ok (0, s.modifyStream a (fun syn => { syn with
              rcvNxt := fragment.acknum
              sndbuf := some (rteRingMpEnqueue sndbuf fragment)
              status := .synRcvd }))
    else
      .ok (0, s)
  else
    .ok (0, s)

/-
The source compares the acknowledgement number with `snd_nxt + 1`, but the body of that `if` is empty.
-/
def ngTcpHandleSynRcvd (s : Stack) (a : Addr) (stream : NgTcpStream) (tcphdr : RteTcpHdr)
    : Except Halt (Int × Stack) :=
  if hasFlag tcphdr.tcpFlags rteTcpAckFlag then
    if stream.status = .synRcvd then
      let s := s.modifyStream a (fun stream => { stream with status := .established })
      match ngTcpStreamSearch s 0 0 0 stream.dport with
      | none => .error .exited
      | some (_, listener) =>
        match epollEventCallback s.table.ep listener.fd epollin with
        | .error e => .error e
        | .ok (_, ep) => .ok (0, s.setEp ep)
    else
      .ok (0, s)
  else
    .ok (0, s)

def hdrlen (tcphdr : RteTcpHdr) : UInt8 :=
  tcphdr.dataOff >>> 4

def payloadlen (tcphdr : RteTcpHdr) (tcplen : Int) : Int :=
  tcplen - (hdrlen tcphdr).toNat * 4

/--
The `n` bytes behind the TCP header.
-/
def payloadBytes (m : Mbuf) (n : Nat) : List UInt8 :=
  (List.range n).map (fun i => m.l4 ((hdrlen m.tcp).toNat * 4 + i))

/--
The fragment `ng_tcp_enqueue_recvbuffer` queues, unless one of its two allocations fails.
-/
def recvFragment (env : Env) (m : Mbuf) (tcplen : Int) : Option NgTcpFragment :=
  let rfragment := { NgTcpFragment.zero with
    dport := ntohs m.tcp.dstPort
    sport := ntohs m.tcp.srcPort }
  if !env.rteMalloc 0 then
    none
  else
    let payloadlen := payloadlen m.tcp tcplen
    if 0 < payloadlen then
      if !env.rteMalloc 1 then
        none
      else
        some { rfragment with
          data := some (payloadBytes m payloadlen.toNat ++ [0])
          length := UInt32.ofNat payloadlen.toNat }
    else
      some rfragment

def ngTcpEnqueueRecvbuffer (env : Env) (stream : NgTcpStream) (m : Mbuf) (tcplen : Int)
    : Except Halt (Int × NgTcpStream) :=
  match recvFragment env m tcplen with
  | none => .ok (-1, stream)
  | some rfragment =>
    match stream.rcvbuf with
    | none => .error .nullPointer
    | some rcvbuf => .ok (0, { stream with rcvbuf := some (rteRingMpEnqueue rcvbuf rfragment) })

def ackFragment (stream : NgTcpStream) (tcphdr : RteTcpHdr) : NgTcpFragment :=
  { NgTcpFragment.zero with
    dport := tcphdr.srcPort
    sport := tcphdr.dstPort
    acknum := stream.rcvNxt
    seqnum := stream.sndNxt
    tcpFlags := rteTcpAckFlag
    windows := tcpInitialWindow
    hdrlenOff := 0x50
    data := none
    length := 0 }

def ngTcpSendAckpkt (env : Env) (stream : NgTcpStream) (tcphdr : RteTcpHdr)
    : Except Halt (Int × NgTcpStream) :=
  if !env.rteMalloc 0 then
    .ok (-1, stream)
  else
    match stream.sndbuf with
    | none => .error .nullPointer
    | some sndbuf =>
      let sndbuf := some (rteRingMpEnqueue sndbuf (ackFragment stream tcphdr))
      .ok (0, { stream with sndbuf })

/--
Enqueue, signal the event poll, count and acknowledge: what `ng_tcp_handle_established` does once for
a segment with PSH and once for one with FIN. `tcplen` goes into the enqueue, `n` onto `rcv_nxt`.
-/
def establishedStep (env : Env) (ep : Option Eventpoll) (stream : NgTcpStream) (m : Mbuf)
    (tcplen n : Int) : Except Halt (NgTcpStream × Eventpoll) :=
  match ngTcpEnqueueRecvbuffer env stream m tcplen with
  | .error e => .error e
  | .ok (_, stream) =>
    match epollEventCallback ep stream.fd epollin with
    | .error e => .error e
    | .ok (_, ep) =>
      let stream := { stream with
        rcvNxt := stream.rcvNxt + UInt32.ofInt n
        sndNxt := ntohl m.tcp.recvAck }
      -- The enqueue has two allocations of its own.
      match ngTcpSendAckpkt (env.after 2) stream m.tcp with
      | .error e => .error e
      | .ok (_, stream) => .ok (stream, ep)

def ngTcpHandleEstablished (env : Env) (s : Stack) (a : Addr) (stream : NgTcpStream) (m : Mbuf)
    (tcplen : Int) : Except Halt (Int × Stack) :=
  let psh : Except Halt (NgTcpStream × Stack) :=
    if hasFlag m.tcp.tcpFlags rteTcpPshFlag then
      match establishedStep env s.table.ep stream m tcplen (payloadlen m.tcp tcplen) with
      | .error e => .error e
      | .ok (stream, ep) => .ok (stream, (s.modifyStream a (fun _ => stream)).setEp ep)
    else
      .ok (stream, s)
  match psh with
  | .error e => .error e
  | .ok (stream, s) =>
    if hasFlag m.tcp.tcpFlags rteTcpFinFlag then
      let stream := { stream with status := .closeWait }
      -- The length handed over is that of the header in words, not that of the segment.
      match establishedStep (env.after 3) s.table.ep stream m (hdrlen m.tcp).toNat 1 with
      | .error e => .error e
      | .ok (stream, ep) => .ok (0, (s.modifyStream a (fun _ => stream)).setEp ep)
    else
      .ok (0, s)

/-
Both branches of the source are empty.
-/
def ngTcpHandleCloseWait (s : Stack) : Int × Stack :=
  (0, s)

def ngTcpHandleLastAck (s : Stack) (a : Addr) (stream : NgTcpStream) (tcphdr : RteTcpHdr)
    : Int × Stack :=
  if hasFlag tcphdr.tcpFlags rteTcpAckFlag then
    if stream.status = .lastAck then
      (0, { s with
        table.tcbSet := s.table.tcbSet.remove a
        ringNames := rteRingFree (rteRingFree s.ringNames stream.sndbuf) stream.rcvbuf })
    else
      (0, s)
  else
    (0, s)

/--
`ntohs(iphdr->total_length) - sizeof(struct rte_ipv4_hdr)`
-/
def tcplen (iphdr : RteIpv4Hdr) : Int :=
  (ntohs iphdr.totalLength).toNat - 20

/--
The `switch` of `ng_tcp_process`.
-/
def ngTcpDispatch (env : Env) (s : Stack) (a : Addr) (stream : NgTcpStream) (m : Mbuf)
    : Except Halt (Int × Stack) :=
  match stream.status with
  | .closed => .ok (0, s)
  | .listen => ngTcpHandleListen env s stream m.tcp m.ip
  | .synRcvd => ngTcpHandleSynRcvd s a stream m.tcp
  | .synSent => .ok (0, s)
  | .established => ngTcpHandleEstablished env s a stream m (tcplen m.ip)
  | .finWait1 => .ok (0, s)
  | .finWait2 => .ok (0, s)
  | .closing => .ok (0, s)
  | .timeWait => .ok (0, s)
  | .closeWait => .ok (ngTcpHandleCloseWait s)
  | .lastAck => .ok (ngTcpHandleLastAck s a stream m.tcp)

/--
The checksum test of `ng_tcp_process`.
-/
def cksumOk (env : Env) (m : Mbuf) : Bool :=
  env.rteIpv4UdptcpCksum { m with tcp.cksum := 0 } == m.tcp.cksum

/--
The stream `ng_tcp_process` finds for a segment.
-/
def ngTcpStreamOf (s : Stack) (m : Mbuf) : Option (Addr × NgTcpStream) :=
  ngTcpStreamSearch s m.ip.srcAddr m.ip.dstAddr m.tcp.srcPort m.tcp.dstPort

def ngTcpProcess (env : Env) (s : Stack) (m : Mbuf) : Except Halt (Int × Stack) :=
  if !cksumOk env m then
    .ok (-1, s.rtePktmbufFree m)
  else
    match ngTcpStreamOf s m with
    | none => .ok (-2, s.rtePktmbufFree m)
    | some (a, stream) =>
      match ngTcpDispatch env s a stream m with
      | .error e => .error e
      | .ok (_, s) => .ok (0, s.rtePktmbufFree m)

/--
What `ng_tcp_pkt` is called with, the stream it is called for and whether `ring->out` takes the frame.
-/
structure TcpFrame where
  stream : Addr
  sip : UInt32
  dip : UInt32
  srcmac : MacAddr
  dstmac : MacAddr
  fragment : NgTcpFragment
  sent : Bool
  deriving DecidableEq, Repr

/--
`ng_tcp_out` on one stream. When the address of the peer is not known yet, an ARP request goes out and
the fragment back to the end of the ring. A fragment whose frame does not get onto `ring->out` is gone.
-/
def ngTcpOutStream (alloc room : Bool) (arpt : ArpTable Int) (a : Addr) (stream : NgTcpStream)
    : Except Halt (NgTcpStream × List TcpFrame) :=
  match stream.sndbuf with
  | none => .ok (stream, [])
  | some sndbuf =>
    match rteRingMcDequeue sndbuf with
    | none => .ok (stream, [])
    | some (fragment, sndbuf) =>
      if !alloc then
        .error .exited
      else
        match ngGetDstMacaddr arpt stream.sip with
        | none =>
          .ok ({ stream with sndbuf := some (rteRingMpEnqueue sndbuf fragment) }, [])
        | some dstmac =>
          .ok ({ stream with sndbuf := some sndbuf }, [{
            stream := a
            sip := stream.dip
            dip := stream.sip
            srcmac := stream.localmac
            dstmac
            fragment
            sent := room }])

/--
The loop of `ng_tcp_out` over the streams at the given addresses.
-/
def ngTcpOutLoop (env : Env) : List Addr → Stack → Except Halt (Stack × List TcpFrame)
  | [], s => .ok (s, [])
  | a :: as, s =>
    match s.stream? a with
    | none => ngTcpOutLoop env as s
    | some stream =>
      match ngTcpOutStream (env.rtePktmbufAlloc a) (env.outRoom a) s.arpt a stream with
      | .error e => .error e
      | .ok (stream, frame) =>
        match ngTcpOutLoop env as (s.modifyStream a (fun _ => stream)) with
        | .error e => .error e
        | .ok (s, frames) => .ok (s, frame ++ frames)

def ngTcpOut (env : Env) (s : Stack) : Except Halt (Stack × List TcpFrame) :=
  ngTcpOutLoop env s.table.tcbSet.addrs s

end NgStack
