import DpdkLearning.Stack.Impl.Basic
import Mathlib.Logic.Function.Basic

/-!
This module contains the tables of the stack that are searched on every call: the bitmap of file
descriptors, the sockets and streams behind them, the streams behind a segment and the ARP entries.
-/

open Lib

namespace NgStack

def defaultFdNum : Nat := 3

def maxFdCount : Nat := 1024

def fdMask (fd : Nat) : UInt8 :=
  1 <<< UInt8.ofNat (fd % 8)

def getFdFrombitmap (fdTable : FdTable) : Int × FdTable :=
  go (maxFdCount - defaultFdNum) defaultFdNum
where
  go : Nat → Nat → Int × FdTable
    | 0, _ => (-1, fdTable)
    | n + 1, fd =>
      if fdTable (fd / 8) &&& fdMask fd == 0 then
        ((fd : Int), Function.update fdTable (fd / 8) (fdTable (fd / 8) ||| fdMask fd))
      else
        go n (fd + 1)

def setFdFrombitmap (fdTable : FdTable) (fd : Int) : FdTable :=
  if maxFdCount ≤ fd then
    fdTable
  else
    match fd with
    | .ofNat fd => Function.update fdTable (fd / 8) (fdTable (fd / 8) &&& ~~~(fdMask fd))
    -- `fd / 8` is cut towards zero and the shift by a negative `fd % 8` goes round within the byte, so that
    -- the descriptors from -7 to -1 clear a bit of the first byte. Lower ones lie in front of the table.
    | .negSucc n =>
      if n < 7 then
        Function.update fdTable 0 (fdTable 0 &&& ~~~(fdMask (7 - n)))
      else
        fdTable

/--
What a descriptor may denote. The source casts the pointer to the type it expects.
-/
inductive Hostinfo where
  | host (a : Addr) (host : Localhost)
  | stream (a : Addr) (stream : NgTcpStream)
  | ep (ep : Eventpoll)

namespace Hostinfo

/--
`host->protocol`. In an event poll the low byte of `rbcnt` lies at its place.
-/
def protocol : Hostinfo → UInt8
  | .host _ h => h.protocol
  | .stream _ st => st.protocol
  | .ep e => e.rbcnt.toUInt32.toUInt8

def asHost : Hostinfo → Except Halt (Addr × Localhost)
  | .host a h => .ok (a, h)
  | _ => .error .wildPointer

def asStream : Hostinfo → Except Halt (Addr × NgTcpStream)
  | .stream a st => .ok (a, st)
  | _ => .error .wildPointer

def asEp : Hostinfo → Except Halt Eventpoll
  | .ep e => .ok e
  | _ => .error .wildPointer

end Hostinfo

def getHostinfoFromfd (s : Stack) (sockfd : Int) : Option Hostinfo :=
  match s.lhost.find? (fun host => sockfd == host.fd) with
  | some (a, host) => some (.host a host)
  | none =>
    match s.table.tcbSet.find? (fun stream => sockfd == stream.fd) with
    | some (a, stream) => some (.stream a stream)
    | none =>
      match s.table.ep with
      | none => none
      | some ep => if ep.fd == sockfd then some (.ep ep) else none

def getAcceptTcb (s : Stack) (dport : UInt16) : Option (Addr × NgTcpStream) :=
  s.table.tcbSet.find? (fun apt => dport == apt.dport && apt.fd == -1)

def getHostinfoFromipPort (s : Stack) (dip : UInt32) (port : UInt16) (proto : UInt8)
    : Option (Addr × Localhost) :=
  s.lhost.find? (fun host => dip == host.localip && port == host.localport && proto == host.protocol)

def ngTcpStreamSearch (s : Stack) (sip dip : UInt32) (sport dport : UInt16)
    : Option (Addr × NgTcpStream) :=
  match s.table.tcbSet.find? (fun iter =>
    iter.sip == sip && iter.dip == dip && iter.sport == sport && iter.dport == dport) with
  | some found => some found
  | none => s.table.tcbSet.find? (fun iter => iter.dport == dport && iter.status == .listen)

section Arp

variable {ι : Type} [DecidableEq ι] [OfNat ι 0] [OfNat ι 1] [Add ι] [Sub ι]

def ngGetDstMacaddr (arpt : ArpTable ι) (dip : UInt32) : Option MacAddr :=
  go arpt.count arpt.entries
where
  go : ι → List ArpEntry → Option MacAddr
    | _, [] => none
    | count, iter :: rest =>
      if count = 0 then
        none
      else if dip == iter.ip then
        some iter.hwaddr
      else
        go (count - 1) rest

def ngArpEntryInsert (malloc : Bool) (arpt : ArpTable ι) (ip : UInt32) (mac : MacAddr)
    : Int × ArpTable ι :=
  match ngGetDstMacaddr arpt ip with
  | none =>
    if malloc then
      (1, { entries := { ip, hwaddr := mac } :: arpt.entries, count := arpt.count + 1 })
    else
      (1, arpt)
  | some _ => (0, arpt)

end Arp

end NgStack
