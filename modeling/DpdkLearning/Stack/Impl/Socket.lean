import DpdkLearning.Stack.Impl.Tables

/-!
This module contains the calls an application makes on a socket.
-/

open Lib

namespace NgStack

def nsocket (env : Env) (s : Stack) (type : Int) : Int × Stack :=
  let (fd, fdTable) := getFdFrombitmap s.fdTable
  let s := { s with fdTable }
  if type = sockDgram then
    if !env.rteMalloc 0 then
      (-1, s)
    else
      match rteRingCreate (env.rteRingCreate 0) s.ringNames "recv buffer".toList with
      | (none, _) => (-1, s)
      | (some rcvbuf, names) =>
        match rteRingCreate (env.rteRingCreate 1) names "send buffer".toList with
        | (none, names) => (-1, { s with ringNames := rteRingFree names (some rcvbuf) })
        | (some sndbuf, names) =>
          let host := {
            fd := fd
            localip := 0
            localmac := .replicate 6 0
            localport := 0
            protocol := ipprotoUdp
            sndbuf := some sndbuf
            rcvbuf := some rcvbuf
          }
          (fd, { s with ringNames := names, lhost := s.lhost.add host })
  else if type = sockStream then
    if !env.rteMalloc 0 then
      (-1, s)
    else
      match rteRingCreate (env.rteRingCreate 0) s.ringNames "tcp recv buffer".toList with
      | (none, _) => (-1, s)
      | (some rcvbuf, names) =>
        match rteRingCreate (env.rteRingCreate 1) names "tcp send buffer".toList with
        | (none, names) => (-1, { s with ringNames := rteRingFree names (some rcvbuf) })
        | (some sndbuf, names) =>
          let stream := {
            fd := fd
            dip := 0
            localmac := .replicate 6 0
            dport := 0
            protocol := ipprotoTcp
            sport := 0
            sip := 0
            sndNxt := 0
            rcvNxt := 0
            status := .closed
            sndbuf := some sndbuf
            rcvbuf := some rcvbuf
          }
          (fd, { s with ringNames := names, table.tcbSet := s.table.tcbSet.add stream })
  else
    (fd, s)

def nbind (s : Stack) (sockfd : Int) (sinPort : UInt16) (sAddr : UInt32)
    : Except Halt (Int × Stack) :=
  match getHostinfoFromfd s sockfd with
  | none => .ok (-1, s)
  | some hostinfo =>
    if hostinfo.protocol = ipprotoUdp then
      match hostinfo.asHost with
      | .error e => .error e
      | .ok (a, _) =>
        let bind (host : Localhost) : Localhost :=
          { host with localport := sinPort, localip := sAddr, localmac := s.gSrcMac }
        .ok (0, { s with lhost := s.lhost.modify a bind })
    else if hostinfo.protocol = ipprotoTcp then
      match hostinfo.asStream with
      | .error e => .error e
      | .ok (a, _) =>
        let bind (stream : NgTcpStream) : NgTcpStream :=
          { stream with dport := sinPort, dip := sAddr, localmac := s.gSrcMac, status := .closed }
        .ok (0, s.modifyStream a bind)
    else
      .ok (0, s)

def nlisten (s : Stack) (sockfd : Int) : Except Halt (Int × Stack) :=
  match getHostinfoFromfd s sockfd with
  | none => .ok (-1, s)
  | some hostinfo =>
    if hostinfo.protocol = ipprotoTcp then
      match hostinfo.asStream with
      | .error e => .error e
      | .ok (a, _) => .ok (0, s.modifyStream a (fun stream => { stream with status := .listen }))
    else
      .ok (0, s)

/--
Besides the descriptor, `naccept` reports the port and the address of the peer.
-/
def naccept (s : Stack) (sockfd : Int) : Except Halt (Int × Option (UInt16 × UInt32) × Stack) :=
  match getHostinfoFromfd s sockfd with
  | none => .ok (-1, none, s)
  | some hostinfo =>
    if hostinfo.protocol = ipprotoTcp then
      match hostinfo.asStream with
      | .error e => .error e
      | .ok (_, stream) =>
        match getAcceptTcb s stream.dport with
        | none => .error .blocked
        | some (a, apt) =>
          let (fd, fdTable) := getFdFrombitmap s.fdTable
          let s := { s with fdTable }
          .ok (fd, some (apt.sport, apt.sip), s.modifyStream a (fun apt => { apt with fd }))
    else
      .ok (-1, none, s)

def NgTcpStream.sndFragment (stream : NgTcpStream) (buf : List UInt8) : NgTcpFragment :=
  { NgTcpFragment.zero with
    dport := stream.sport
    sport := stream.dport
    acknum := stream.rcvNxt
    seqnum := stream.sndNxt
    tcpFlags := rteTcpAckFlag ||| rteTcpPshFlag
    windows := tcpInitialWindow
    hdrlenOff := 0x50
    data := some (buf ++ [0])
    length := UInt32.ofNat buf.length }

def nsend (env : Env) (s : Stack) (sockfd : Int) (buf : List UInt8) : Except Halt (Int × Stack) :=
  match getHostinfoFromfd s sockfd with
  | none => .ok (-1, s)
  | some hostinfo =>
    if hostinfo.protocol = ipprotoTcp then
      match hostinfo.asStream with
      | .error e => .error e
      | .ok (a, stream) =>
        if !env.rteMalloc 0 then
          .ok (-2, s)
        else if !env.rteMalloc 1 then
          .ok (-1, s)
        else
          match stream.sndbuf with
          | none => .error .nullPointer
          | some sndbuf =>
            let fragment := stream.sndFragment buf
            let sndbuf := some (rteRingMpEnqueue sndbuf fragment)
            .ok (fragment.length.toNat, s.modifyStream a (fun stream => { stream with sndbuf }))
    else
      .ok (0, s)

/--
The loop of `nrecv` that moves what is behind the first `len` bytes of `data` to its start.
-/
def nrecvShift (data : List UInt8) (len : Nat) : Nat → List UInt8
  | 0 => data
  | i + 1 =>
    let data := nrecvShift data len i
    data.set i (data.getD (len + i) 0)

/--
Besides the return value, `nrecv` leaves the bytes it read in the memory at `buf`.
-/
def nrecv (s : Stack) (sockfd : Int) (buf : Nat → UInt8) (len : Nat)
    : Except Halt (Int × (Nat → UInt8) × Stack) :=
  match getHostinfoFromfd s sockfd with
  | none => .ok (-1, buf, s)
  | some hostinfo =>
    if hostinfo.protocol = ipprotoTcp then
      match hostinfo.asStream with
      | .error e => .error e
      | .ok (a, stream) =>
        match stream.rcvbuf with
        | none => .error .nullPointer
        | some rcvbuf =>
          match rteRingMcDequeue rcvbuf with
          | none => .error .blocked
          | some (fragment, rcvbuf) =>
            if len < fragment.length.toNat then
              match fragment.data with
              | none => .error .nullPointer
              | some data =>
                let length := fragment.length.toNat - len
                let fragment := { fragment with
                  data := some (nrecvShift data len length)
                  length := UInt32.ofNat length }
                let rcvbuf := some (rteRingMpEnqueue rcvbuf fragment)
                .ok (length, rteMemcpy buf data len,
                  s.modifyStream a (fun stream => { stream with rcvbuf }))
            else
              let s := s.modifyStream a (fun stream => { stream with rcvbuf := some rcvbuf })
              if fragment.length = 0 then
                .ok (0, buf, s)
              else
                match fragment.data with
                | none => .error .nullPointer
                | some data =>
                  .ok (fragment.length.toNat, rteMemcpy buf data fragment.length.toNat, s)
    else
      .ok (0, buf, s)

/--
The fragment `nclose` queues. Nothing clears it, so what `nclose` does not write is what the memory
held before.
-/
def NgTcpStream.finFragment (stream : NgTcpStream) (stale : NgTcpFragment) : NgTcpFragment :=
  { stale with
    data := none
    length := 0
    sport := stream.dport
    dport := stream.sport
    seqnum := stream.sndNxt
    acknum := stream.rcvNxt
    tcpFlags := rteTcpFinFlag ||| rteTcpAckFlag
    windows := tcpInitialWindow
    hdrlenOff := 0x50 }

def nclose (env : Env) (s : Stack) (fd : Int) : Except Halt (Int × Stack) :=
  match getHostinfoFromfd s fd with
  | none => .ok (-1, s)
  | some hostinfo =>
    if hostinfo.protocol = ipprotoUdp then
      match hostinfo.asHost with
      | .error e => .error e
      | .ok (a, host) =>
        .ok (0, { s with
          lhost := s.lhost.remove a
          ringNames := rteRingFree (rteRingFree s.ringNames host.rcvbuf) host.sndbuf
          fdTable := setFdFrombitmap s.fdTable fd })
    else if hostinfo.protocol = ipprotoTcp then
      match hostinfo.asStream with
      | .error e => .error e
      | .ok (a, stream) =>
        if stream.status ≠ .listen then
          if !env.rteMalloc 0 then
            .ok (-1, s)
          else
            match stream.sndbuf with
            | none => .error .nullPointer
            | some sndbuf =>
              let sndbuf := some (rteRingMpEnqueue sndbuf (stream.finFragment env.staleFragment))
              let s := s.modifyStream a (fun stream => { stream with sndbuf, status := .lastAck })
              .ok (0, { s with fdTable := setFdFrombitmap s.fdTable fd })
        else
          .ok (0, { s with table.tcbSet := s.table.tcbSet.remove a })
    else
      .ok (0, s)

end NgStack
