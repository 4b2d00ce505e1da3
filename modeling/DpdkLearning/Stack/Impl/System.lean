import DpdkLearning.Lib.Machine
import DpdkLearning.Stack.Impl.Socket
import DpdkLearning.Stack.Impl.Tcp
import DpdkLearning.Stack.Impl.Udp

/-!
This module contains the stack as a machine: its actions are the calls of the applications and the
packets that the packet side takes in or sends out, one after the other in any order.
-/

open Lib

namespace NgStack

inductive Act where
  | nsocket (env : Env) (type : Int)
  | nbind (sockfd : Int) (sinPort : UInt16) (sAddr : UInt32)
  | nlisten (sockfd : Int)
  | naccept (sockfd : Int)
  | nsend (env : Env) (sockfd : Int) (buf : List UInt8)
  | nrecv (sockfd : Int) (buf : Nat → UInt8) (len : Nat)
  | nsendto (env : Env) (sockfd : Int) (buf : List UInt8) (sinPort : UInt16) (sAddr : UInt32)
  | nrecvfrom (env : Env) (sockfd : Int) (buf : Nat → UInt8) (len : Nat)
  | nclose (env : Env) (fd : Int)
  | nepollCreate (env : Env) (size : Int)
  | nepollCtl (env : Env) (epfd op sockid : Int) (event : Option EpollEvent)
  | nepollWait (env : Env) (epfd maxevents timeout : Int)
  | epollEventCallback (sockid : Int) (event : UInt32)
  | ngArpEntryInsert (malloc : Bool) (ip : UInt32) (mac : MacAddr)
  | udpProcess (env : Env) (m : Mbuf)
  | ngTcpProcess (env : Env) (m : Mbuf)
  | udpOut (env : Env)
  | ngTcpOut (env : Env)

/--
What a call gives back: its return value and what it leaves in the memory or the rings it writes to.
-/
structure Out where
  ret : Int
  buf : Nat → UInt8 := fun _ => 0
  peer : Option (UInt16 × UInt32) := none
  events : List EpollEvent := []
  udpFrames : List UdpFrame := []
  tcpFrames : List TcpFrame := []

def Out.ofRet (r : Int × Stack) : Stack × Out :=
  (r.2, { ret := r.1 })

namespace Stack

def step (s : Stack) : Act → Except Halt (Stack × Out)
  | .nsocket env type => .ok (Out.ofRet (nsocket env s type))
  | .nbind sockfd sinPort sAddr => (nbind s sockfd sinPort sAddr).map Out.ofRet
  | .nlisten sockfd => (nlisten s sockfd).map Out.ofRet
  | .naccept sockfd => (naccept s sockfd).map (fun (ret, peer, s) => (s, { ret, peer }))
  | .nsend env sockfd buf => (nsend env s sockfd buf).map Out.ofRet
  | .nrecv sockfd buf len => (nrecv s sockfd buf len).map (fun (ret, buf, s) => (s, { ret, buf }))
  | .nsendto env sockfd buf sinPort sAddr => (nsendto env s sockfd buf sinPort sAddr).map Out.ofRet
  | .nrecvfrom env sockfd buf len =>
    (nrecvfrom env s sockfd buf len).map (fun (ret, buf, peer, s) => (s, { ret, buf, peer }))
  | .nclose env fd => (nclose env s fd).map Out.ofRet
  | .nepollCreate env size => (nepollCreate env s size).map Out.ofRet
  | .nepollCtl env epfd op sockid event => (nepollCtl env s epfd op sockid event).map Out.ofRet
  | .nepollWait env epfd maxevents timeout =>
    (nepollWait env s epfd maxevents timeout).map (fun (ret, events, s) => (s, { ret, events }))
  | .epollEventCallback sockid event =>
    (NgStack.epollEventCallback s.table.ep sockid event).map
      (fun (ret, ep) => (s.setEp ep, { ret }))
  | .ngArpEntryInsert malloc ip mac =>
    let (ret, arpt) := NgStack.ngArpEntryInsert malloc s.arpt ip mac
    .ok ({ s with arpt }, { ret })
  | .udpProcess env m => (udpProcess env s m).map Out.ofRet
  | .ngTcpProcess env m => (ngTcpProcess env s m).map Out.ofRet
  | .udpOut env => (udpOut env s).map (fun (s, udpFrames) => (s, { ret := 0, udpFrames }))
  | .ngTcpOut env => (ngTcpOut env s).map (fun (s, tcpFrames) => (s, { ret := 0, tcpFrames }))

end Stack

def machine : Machine Stack Act Out Halt where
  step := Stack.step

abbrev Step := Edge Stack Act Out

abbrev Run := Machine.Run machine

end NgStack
