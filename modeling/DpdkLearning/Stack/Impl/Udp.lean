import DpdkLearning.Stack.Impl.Tables

/-!
This module contains UDP: the calls of an application on a datagram socket and what the packet side
does for them.
-/

open Lib

namespace NgStack

/--
The payload of a datagram: `rte_malloc` gives nothing for no bytes, and nothing for the huge size that
a `dgram_len` below the header length wraps to.
-/
def udpPayload (env : Env) (m : Mbuf) : Option (List UInt8) :=
  let dgramLen := (ntohs m.udp.dgramLen).toNat
  if env.rteMalloc 1 && decide (8 < dgramLen) then
    some ((List.range (dgramLen - 8)).map (fun i => m.l4 (8 + i)))
  else
    none

def udpProcess (env : Env) (s : Stack) (m : Mbuf) : Except Halt (Int × Stack) :=
  match getHostinfoFromipPort s m.ip.dstAddr m.udp.dstPort m.ip.nextProtoId with
  | none => .ok (-3, s.rtePktmbufFree m)
  | some (a, host) =>
    if !env.rteMalloc 0 then
      .ok (-1, s.rtePktmbufFree m)
    else
      match udpPayload env m with
      | none => .ok (-2, s.rtePktmbufFree m)
      | some data =>
        match host.rcvbuf with
        | none => .error .nullPointer
        | some rcvbuf =>
          let ol := {
            dip := m.ip.dstAddr
            sip := m.ip.srcAddr
            sport := m.udp.srcPort
            dport := m.udp.dstPort
            protocol := ipprotoUdp.toNat
            length := ntohs m.udp.dgramLen
            data
          }
          let rcvbuf := some (rteRingMpEnqueue rcvbuf ol)
          let s := { s with lhost := s.lhost.modify a (fun host => { host with rcvbuf }) }
          .ok (0, s.rtePktmbufFree m)

/--
Besides the return value, `nrecvfrom` leaves the bytes it read at `buf` and reports the port and the
address of the sender.
-/
def nrecvfrom (env : Env) (s : Stack) (sockfd : Int) (buf : Nat → UInt8) (len : Nat)
    : Except Halt (Int × (Nat → UInt8) × Option (UInt16 × UInt32) × Stack) :=
  match getHostinfoFromfd s sockfd with
  | none => .ok (-1, buf, none, s)
  | some hostinfo =>
    match hostinfo.asHost with
    | .error e => .error e
    | .ok (a, host) =>
      match host.rcvbuf with
      | none => .error .nullPointer
      | some rcvbuf =>
        match rteRingMcDequeue rcvbuf with
        | none => .error .blocked
        | some (ol, rcvbuf) =>
          let byte (i : Nat) : UInt8 := ol.data.getD i (env.heap i)
          if len < ol.length.toNat then
            if !env.rteMalloc 0 then
              .error .nullPointer
            else
              let left := ol.length.toNat - len
              let rest := { ol with
                length := UInt16.ofNat left
                data := (List.range left).map (fun i => byte (len + i)) }
              let rcvbuf := some (rteRingMpEnqueue rcvbuf rest)
              .ok (len, fun i => if i < len then byte i else buf i, some (ol.sport, ol.sip),
                { s with lhost := s.lhost.modify a (fun host => { host with rcvbuf }) })
          else
            let length := ol.length.toNat
            .ok (length, fun i => if i < length then byte i else buf i, some (ol.sport, ol.sip),
              { s with
                lhost := s.lhost.modify a (fun host => { host with rcvbuf := some rcvbuf }) })

/-
The source leaves `protocol` of the new datagram as the memory held it; nothing reads it.
-/
def nsendto (env : Env) (s : Stack) (sockfd : Int) (buf : List UInt8) (sinPort : UInt16)
    (sAddr : UInt32) : Except Halt (Int × Stack) :=
  match getHostinfoFromfd s sockfd with
  | none => .ok (-1, s)
  | some hostinfo =>
    match hostinfo.asHost with
    | .error e => .error e
    | .ok (a, host) =>
      if !env.rteMalloc 0 then
        .ok (-1, s)
      else if !(env.rteMalloc 1 && decide (0 < buf.length)) then
        .ok (-1, s)
      else
        match host.sndbuf with
        | none => .error .nullPointer
        | some sndbuf =>
          let ol := {
            dip := sAddr
            dport := sinPort
            sip := host.localip
            sport := host.localport
            protocol := 0
            length := UInt16.ofNat buf.length
            data := buf
          }
          let sndbuf := some (rteRingMpEnqueue sndbuf ol)
          .ok (buf.length, { s with lhost := s.lhost.modify a (fun host => { host with sndbuf }) })

/--
What `ng_udp_pkt` is called with, the socket it is called for and whether `ring->out` takes the frame.
-/
structure UdpFrame where
  host : Addr
  srcmac : MacAddr
  dstmac : MacAddr
  ol : Offload
  sent : Bool
  deriving DecidableEq, Repr

/--
`udp_out` on one socket.
-/
def udpOutHost (alloc room : Bool) (arpt : ArpTable Int) (a : Addr) (host : Localhost)
    : Except Halt (Localhost × List UdpFrame) :=
  match host.sndbuf with
  | none => .error .nullPointer
  | some sndbuf =>
    match rteRingMcDequeue sndbuf with
    | none => .ok (host, [])
    | some (ol, sndbuf) =>
      if !alloc then
        .error .exited
      else
        match ngGetDstMacaddr arpt ol.dip with
        | none => .ok ({ host with sndbuf := some (rteRingMpEnqueue sndbuf ol) }, [])
        | some dstmac =>
          .ok ({ host with sndbuf := some sndbuf },
            [{ host := a, srcmac := host.localmac, dstmac, ol, sent := room }])

def udpOutLoop (env : Env) : List Addr → Stack → Except Halt (Stack × List UdpFrame)
  | [], s => .ok (s, [])
  | a :: as, s =>
    match s.lhost.get? a with
    | none => udpOutLoop env as s
    | some host =>
      match udpOutHost (env.rtePktmbufAlloc a) (env.outRoom a) s.arpt a host with
      | .error e => .error e
      | .ok (host, frame) =>
        match udpOutLoop env as { s with lhost := s.lhost.modify a (fun _ => host) } with
        | .error e => .error e
        | .ok (s, frames) => .ok (s, frame ++ frames)

def udpOut (env : Env) (s : Stack) : Except Halt (Stack × List UdpFrame) :=
  udpOutLoop env s.lhost.addrs s

end NgStack
