import DpdkLearning.Stack.Impl.System

/-!
This module contains `tcp_server_entry` as it is built for the single event poll, one call after the
other, and the machine in which it shares the stack with the packet side.
-/

open Lib

namespace NgStack

/--
The call `tcp_server_entry` makes next. `rest` are the entries of `events` it has not come to yet.
-/
inductive ServerPc where
  | socket
  | bind
  | listen
  | epollCreate
  | addListen
  | wait
  | event (ev : EpollEvent) (rest : List EpollEvent)
  | add (connfd : Int) (rest : List EpollEvent)
  | send (connfd n : Int) (rest : List EpollEvent)
  | del (connfd : Int) (rest : List EpollEvent)
  | close (connfd : Int) (rest : List EpollEvent)
  | returned
  deriving DecidableEq, Repr

/--
The local variables of `tcp_server_entry`.
-/
structure Server where
  pc : ServerPc
  listenfd : Int
  epfd : Int
  buff : Nat → UInt8

namespace Server

def init : Server where
  pc := .socket
  listenfd := 0
  epfd := 0
  buff := fun _ => 0

/--
The head of the `for` loop: on to the next event, or back to the wait.
-/
def next : List EpollEvent → ServerPc
  | [] => .wait
  | ev :: rest => .event ev rest

def call (srv : Server) (env : Env) : Option Act :=
  match srv.pc with
  | .socket => some (.nsocket env sockStream)
  | .bind => some (.nbind srv.listenfd (htons 9999) 0)
  | .listen => some (.nlisten srv.listenfd)
  | .epollCreate => some (.nepollCreate env 1)
  | .addListen =>
    some (.nepollCtl env srv.epfd epollCtlAdd srv.listenfd
      (some { events := epollin, fd := srv.listenfd }))
  | .wait => some (.nepollWait env srv.epfd 128 5)
  | .event ev _ =>
    if srv.listenfd = ev.fd then
      some (.naccept srv.listenfd)
    else
      some (.nrecv ev.fd srv.buff bufferSize)
  | .add connfd _ =>
    some (.nepollCtl env srv.epfd epollCtlAdd connfd (some { events := epollin, fd := connfd }))
  | .send connfd n _ => some (.nsend env connfd ((List.range n.toNat).map srv.buff))
  | .del connfd _ => some (.nepollCtl env srv.epfd epollCtlDel connfd none)
  | .close connfd _ => some (.nclose env connfd)
  | .returned => none

/--
What the server makes of the outcome of its call.
-/
def advance (srv : Server) (out : Out) : Server :=
  match srv.pc with
  | .socket => { srv with listenfd := out.ret, pc := if out.ret = -1 then .returned else .bind }
  | .bind => { srv with pc := .listen }
  | .listen => { srv with pc := .epollCreate }
  | .epollCreate => { srv with epfd := out.ret, pc := .addListen }
  | .addListen => { srv with pc := .wait }
  | .wait => if out.ret < 0 then srv else { srv with pc := next out.events }
  | .event ev rest =>
    if srv.listenfd = ev.fd then
      { srv with pc := .add out.ret rest }
    else if 0 < out.ret then
      { srv with buff := out.buf, pc := .send ev.fd out.ret rest }
    else
      { srv with buff := out.buf, pc := .del ev.fd rest }
  | .add _ rest => { srv with pc := next rest }
  | .send _ _ rest => { srv with pc := next rest }
  | .del connfd rest => { srv with pc := .close connfd rest }
  | .close _ rest => { srv with pc := next rest }
  | .returned => srv

end Server

/--
What the packet side does to the stack.
-/
inductive PacketAct where
  | ngArpEntryInsert (malloc : Bool) (ip : UInt32) (mac : MacAddr)
  | udpProcess (env : Env) (m : Mbuf)
  | ngTcpProcess (env : Env) (m : Mbuf)
  | udpOut (env : Env)
  | ngTcpOut (env : Env)

def PacketAct.act : PacketAct → Act
  | .ngArpEntryInsert malloc ip mac => .ngArpEntryInsert malloc ip mac
  | .udpProcess env m => .udpProcess env m
  | .ngTcpProcess env m => .ngTcpProcess env m
  | .udpOut env => .udpOut env
  | .ngTcpOut env => .ngTcpOut env

structure ServerSys where
  srv : Server
  stack : Stack

namespace ServerSys

def init : ServerSys where
  srv := .init
  stack := .init

inductive Turn where
  | server (env : Env)
  | packet (p : PacketAct)

def step (sys : ServerSys) : Turn → Except Halt (ServerSys × Out)
  | .server env =>
    match sys.srv.call env with
    -- The thread is over.
    | none => .ok (sys, { ret := -1 })
    | some act =>
      (sys.stack.step act).map (fun (stack, out) => ({ srv := sys.srv.advance out, stack }, out))
  | .packet p => (sys.stack.step p.act).map (fun (stack, out) => ({ sys with stack }, out))

end ServerSys

def serverMachine : Machine ServerSys ServerSys.Turn Out Halt where
  step := ServerSys.step

abbrev ServerStep := Edge ServerSys ServerSys.Turn Out

abbrev ServerRun := Machine.Run serverMachine

end NgStack
