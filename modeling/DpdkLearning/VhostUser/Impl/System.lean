import DpdkLearning.VhostUser.Impl.Server

/-!
This module contains the client and the server as two processes: the client sets up its rings over a socket and
then sends packets on the one of them, and the server sends each of them back on the other. Both tell each other
of packets by the counters of two eventfds.
-/

open Lib

namespace VhostUser

def descOff : Nat := 8

def availOff : Nat := 524296

def usedOff : Nat := 593920

/--
The greatest value of the counter of an eventfd.
-/
def eventfdMax : Nat := 18446744073709551614

/--
What the operating system gives to both processes. `shm` and `mmap` are where the shared memory is in the
client and in the server, and `received` is the number of a descriptor once it was sent.
-/
structure Env where
  shm : Nat → UInt64
  shmFds : Nat → Int
  kickfd : Nat → Int
  callfd : Nat → Int
  received : Int → Int
  mmap : Int → UInt64 → UInt64
  listenSock : Int
  sock : Int

namespace Env

/--
The memory table of `new_vhost_client`.
-/
def memory (env : Env) : VhostUserMemory where
  padding := 0
  regions := (List.range vhostClientVringNum).map (fun i => {
    guestPhysAddr := env.shm i
    memorySize := pageSize.toUInt64
    userspaceAddr := env.shm i
    mmapOffset := 0 })

/--
The requests of `set_host_vring`.
-/
def setHostVring (env : Env) (i : Nat) : List Ioctl :=
  let index := i.toUInt32
  [.setVringNum { index, num := vhostVringSize.toUInt32 },
    .setVringBase { index, num := 0 },
    .setVringKick { index, fd := env.kickfd i },
    .setVringCall { index, fd := env.callfd i },
    .setVringAddr {
      index
      flags := 0
      descUserAddr := env.shm i + descOff.toUInt64
      usedUserAddr := env.shm i + usedOff.toUInt64
      availUserAddr := env.shm i + availOff.toUInt64
      logGuestAddr := 0 }]

/--
The requests of `init_vhost_client`.
-/
def initVhostClient (env : Env) : List Ioctl :=
  [.setOwner, .getFeatures, .setMemTable env.memory] ++ env.setHostVring vhostClientVringIdxRx
    ++ env.setHostVring vhostClientVringIdxTx

/--
The descriptors that the client has open: those of the memory and the eventfds of its rings.
-/
def opened (env : Env) (fd : Int) : Bool :=
  (List.range vhostClientVringNum).any (fun i => fd = env.shmFds i ∨ fd = env.kickfd i ∨ fd = env.callfd i)

/--
Where the server has the memory of a ring.
-/
def serverShm (env : Env) (i : Nat) : UInt64 :=
  env.mmap (env.received (env.shmFds i)) pageSize.toUInt64

/--
The ring whose tables are where the pointers of the server point to.
-/
def tables (env : Env) (v : ServerVring) : Option Nat :=
  (List.range vhostClientVringNum).find? (fun i =>
    v.desc = env.serverShm i + descOff.toUInt64 ∧ v.avail = env.serverShm i + availOff.toUInt64
      ∧ v.used = env.serverShm i + usedOff.toUInt64)

def host (env : Env) (shm : Nat → VhostVring) : Host where
  mmap := env.mmap
  usedIdx ptr :=
    match (List.range vhostClientVringNum).find? (fun i => ptr = env.serverShm i + usedOff.toUInt64) with
    | none => none
    | some i => some (shm i).usedIdx

/--
The client uses the addresses of the descriptors as they are.
-/
def clientMap (env : Env) (i : Nat) (addr : UInt64) : Option Nat :=
  mappedAt (env.shm i).toNat pageSize addr

/--
`map_handler`, as a place in the memory of a ring.
-/
def mapHandler (env : Env) (m : VhostServerMemory) (i : Nat) (addr : UInt64) : Option Nat :=
  mappedAt (env.serverShm i).toNat pageSize (m.mapGuestAddr addr)

/--
The ring whose eventfd a descriptor of the server is.
-/
def eventOf (env : Env) (fd : Int) : Option Nat :=
  (List.range vhostClientVringNum).find? (fun i => fd = env.received (env.kickfd i))

end Env

/--
Where the client is: in `init_vhost_client` with the requests that it has still to make, in one of them waiting
for the reply, or in `loop_client`.
-/
inductive ClientPc where
  | init (todo : List Ioctl)
  | reply (todo : List Ioctl) (ioctl : Ioctl) (msg : VhostUserMsg)
  | traverse
  | readKick
  | processAvail
  | processUsed
  | sendPacket
  | kick

structure Client where
  pc : ClientPc
  features : UInt64
  vring : Nat → Vring
  put : PutPc
  get : GetPc

/--
Where the server is: in `traverse_fd_list` before `select` or before one of the nodes, in `_kick_server`, or in
`poll_server`.
-/
inductive ServerPc where
  | traverse
  | nodes (idx : Nat) (ready : List Int)
  | kicked (idx : Nat) (ready : List Int)
  | poll
  | polling
  | answer
  | putVring
  | kick
  | clear
  deriving DecidableEq

structure System where
  shm : Nat → VhostVring
  kicks : Nat → Nat
  toServer : Socket
  toClient : Socket
  client : Client
  server : VhostServer
  serverPc : ServerPc
  serverGet : GetPc
  serverPut : PutPc
  buffer : List UInt8
  bufferSize : UInt32

/--
What a step shows: a request that the server has handled, and what the functions of the rings show.
-/
inductive Out where
  | quiet
  | request (msg : ServerMsg)
  | tx (e : Event)
  | rx (e : Event)

namespace System

variable (env : Env)

def setShm (s : System) (i : Nat) (v : VhostVring) : System :=
  { s with shm := Function.update s.shm i v }

def setKicks (s : System) (i n : Nat) : System :=
  { s with kicks := Function.update s.kicks i n }

def setClientPc (s : System) (pc : ClientPc) : System :=
  { s with client := { s.client with pc } }

def setServerPc (s : System) (serverPc : ServerPc) : System :=
  { s with serverPc }

/--
The `write` of `kick`. A counter at its end stays there.
-/
def signal (s : System) (i : Nat) : System :=
  s.setKicks i (if s.kicks i < eventfdMax then s.kicks i + 1 else s.kicks i)

/--
A step of `process_avail_vring` in the client.
-/
def clientGet (s : System) : Except Halt (System × Event) :=
  let i := vhostClientVringIdxRx
  match getStep (env.clientMap i) (s.shm i) { vring := s.client.vring i, pc := s.client.get } with
  | .error e => .error e
  | .ok (v, g, e) =>
    let client := { s.client with vring := Function.update s.client.vring i g.vring, get := g.pc }
    .ok ({ s.setShm i v with client }, e)

/--
A step of `process_used_vring` or `put_vring` in the client.
-/
def clientPut (s : System) (call : PutCall) : Except Halt (System × Event) :=
  let i := vhostClientVringIdxTx
  match putStep (env.clientMap i) call (s.shm i) { vring := s.client.vring i, pc := s.client.put } with
  | .error e => .error e
  | .ok (v, p, e) =>
    let client := { s.client with vring := Function.update s.client.vring i p.vring, put := p.pc }
    .ok ({ s.setShm i v with client }, e)

/--
A step of `process_avail_vring` in the server, with `avail_handler_server`.
-/
def serverGetStep (s : System) : Except Halt (System × Event) :=
  let idx := vhostClientVringIdxTx
  let v := s.server.vring idx
  match env.tables v with
  | none => .error .unmapped
  | some i =>
    match getStep (env.mapHandler s.server.memory i) (s.shm i) { vring := v.vring, pc := s.serverGet } with
    | .error e => .error e
    | .ok (shm, g, e) =>
      let server := s.server.setVring idx { v with vring := g.vring }
      let s := { s.setShm i shm with server, serverGet := g.pc }
      match e with
      | .handled _ buf size =>
        if size.toNat = buf.length ∧ size.toNat ≤ VhostUser.bufferSize then
          .ok ({ s with
            buffer := buf ++ s.buffer.drop size.toNat
            bufferSize := size.toUInt32 }, e)
        else
          .error .outOfBounds
      | _ => .ok (s, e)

/--
A step of `put_vring` in the server, with what is in the buffer.
-/
def serverPutStep (s : System) : Except Halt (System × Event) :=
  let idx := vhostClientVringIdxRx
  let v := s.server.vring idx
  match env.tables v with
  | none => .error .unmapped
  | some i =>
    match putStep (env.mapHandler s.server.memory i) (.putVring (s.buffer.take s.bufferSize.toNat)) (s.shm i)
      { vring := v.vring, pc := s.serverPut } with
    | .error e => .error e
    | .ok (shm, p, e) =>
      let server := s.server.setVring idx { v with vring := p.vring }
      .ok ({ s.setShm i shm with server, serverPut := p.pc }, e)

/--
`receive_sock_server`, into a message that held `stack`, and then on to `next`.
-/
def receiveSockServer (s : System) (stack : ServerMsg) (next : ServerPc) : Except Halt (System × Out) :=
  match vhostUserRecvFds s.toServer stack.msg vhostMemoryMaxNregions with
  | .error e => .error e
  | .ok none => .ok (s, .quiet)
  | .ok (some r) =>
    let s := { s with toServer := r.socket, serverPc := next }
    if r.ret < 0 then
      .ok (s, .quiet)
    else
      let msg := {
        msg := r.msg
        fdNum := r.fds.length
        fds := fun i => (r.fds.map env.received).getD i (stack.fds i) }
      match s.server.inMsgServer (env.host s.shm) msg with
      | .error e => .error e
      | .ok handled =>
        let s := { s with server := handled.server }
        if handled.reply then
          let flags := handled.msg.flags &&& ~~~vhostUserVersionMask ||| vhostUserVersion ||| vhostUserReplyMask
          -- No descriptors go with a reply.
          let sent := vhostUserSendFds (fun _ => false) s.toClient (handled.msg.setFlags flags) []
          .ok ({ s with toClient := sent.2 }, .request msg)
        else
          .ok (s, .request msg)

/--
What `select` says of a descriptor of the server.
-/
def readable (s : System) (fd : Int) : Bool :=
  if fd = env.sock then
    !s.toServer.isEmpty
  else
    match env.eventOf fd with
    | none => false
    | some i => s.kicks i ≠ 0

/--
The handler of a node, or its beginning.
-/
def serverNode (s : System) (stack : ServerMsg) (idx : Nat) (ready : List Int) (node : FdNode ServerHandler)
    : Except Halt (System × Out) :=
  match node.handler with
  | some .receiveSock => s.receiveSockServer env stack (.nodes (idx + 1) ready)
  | some .kick =>
    match env.eventOf node.fd with
    | none => .ok (s.setServerPc (.nodes (idx + 1) ready), .quiet)
    | some i =>
      -- A read from a counter at 0 returns an error.
      if s.kicks i ≠ 0 ∧ (s.server.vring vhostClientVringIdxTx).desc ≠ 0 then
        .ok ((s.setKicks i 0).setServerPc (.kicked (idx + 1) ready), .quiet)
      else
        .ok ((s.setKicks i 0).setServerPc (.nodes (idx + 1) ready), .quiet)
  | _ => .ok (s.setServerPc (.nodes (idx + 1) ready), .quiet)

def serverStep (s : System) (stack : ServerMsg) : Except Halt (System × Out) :=
  match s.serverPc with
  | .traverse =>
    let ready := s.server.fdList.fdSet.filter (s.readable env)
    .ok (s.setServerPc (if ready = [] then .poll else .nodes 0 ready), .quiet)
  | .nodes idx ready =>
    match s.server.fdList[idx]? with
    | none => .ok (s.setServerPc .poll, .quiet)
    | some node =>
      if node.fd ∈ ready then
        s.serverNode env stack idx ready node
      else
        .ok (s.setServerPc (.nodes (idx + 1) ready), .quiet)
  | .kicked idx ready =>
    match s.serverGetStep env with
    | .error e => .error e
    | .ok (s, .processed count) => .ok (s.setServerPc (.nodes idx ready), .tx (.processed count))
    | .ok (s, e) => .ok (s, .tx e)
  | .poll =>
    if (s.server.vring vhostClientVringIdxRx).desc ≠ 0 then
      if s.server.isPolling ∧ (s.server.vring vhostClientVringIdxTx).desc ≠ 0 then
        .ok (s.setServerPc .polling, .quiet)
      else
        .ok (s.setServerPc .answer, .quiet)
    else
      .ok (s.setServerPc .traverse, .quiet)
  | .polling =>
    match s.serverGetStep env with
    | .error e => .error e
    | .ok (s, .processed count) => .ok (s.setServerPc .answer, .tx (.processed count))
    | .ok (s, e) => .ok (s, .tx e)
  | .answer => .ok (s.setServerPc (if s.bufferSize ≠ 0 then .putVring else .traverse), .quiet)
  | .putVring =>
    match s.serverPutStep env with
    | .error e => .error e
    | .ok (s, .accepted aIdx buf) => .ok (s.setServerPc .kick, .rx (.accepted aIdx buf))
    | .ok (s, .refused) => .ok (s.setServerPc .kick, .rx .refused)
    | .ok (s, e) => .ok (s, .rx e)
  | .kick =>
    match env.eventOf (s.server.vring vhostClientVringIdxRx).kickfd with
    | none => .ok (s.setServerPc .clear, .quiet)
    | some i => .ok ((s.signal i).setServerPc .clear, .quiet)
  | .clear => .ok ({ s with bufferSize := 0, serverPc := .traverse }, .quiet)

/--
The end of `vhost_ioctl`, where it waits for a reply.
-/
def clientReply (s : System) (todo : List Ioctl) (ioctl : Ioctl) (msg : VhostUserMsg)
    : Except Halt (System × Out) :=
  match vhostUserRecvFds s.toClient ((msg.setRequest 0).setFlags 0) 0 with
  | .error e => .error e
  | .ok none => .ok (s, .quiet)
  | .ok (some r) =>
    let s := { s with toClient := r.socket }
    if r.ret < 0 then
      .ok (s.setClientPc (.init todo), .quiet)
    else if r.msg.request = ioctl.request ∧ r.msg.flags &&& vhostUserVersionMask = vhostUserVersion then
      let client := { s.client with pc := .init todo, features := r.msg.u64 }
      .ok ({ s with client }, .quiet)
    else
      .error .assertion

/--
The client sends the packet `p` when it comes to send one.
-/
def clientStep (s : System) (p : List UInt8) : Except Halt (System × Out) :=
  match s.client.pc with
  | .init [] => .ok (s.setClientPc .traverse, .quiet)
  | .init (ioctl :: todo) =>
    match vhostIoctl env.shmFds ioctl with
    | .error e => .error e
    | .ok (msg, fds) =>
      let sent := vhostUserSendFds env.opened s.toServer msg fds
      let s := { s with toServer := sent.2 }
      .ok (s.setClientPc (if 0 ≤ sent.1 ∧ ioctl.needReply then .reply todo ioctl msg else .init todo), .quiet)
  | .reply todo ioctl msg => s.clientReply todo ioctl msg
  | .traverse =>
    .ok (s.setClientPc (if s.kicks vhostClientVringIdxRx ≠ 0 then .readKick else .processUsed), .quiet)
  | .readKick =>
    if s.kicks vhostClientVringIdxRx ≠ 0 then
      .ok ((s.setKicks vhostClientVringIdxRx 0).setClientPc .processAvail, .quiet)
    else
      .ok (s.setClientPc .processUsed, .quiet)
  | .processAvail =>
    match s.clientGet env with
    | .error e => .error e
    | .ok (s, .processed count) => .ok (s.setClientPc .processUsed, .rx (.processed count))
    | .ok (s, e) => .ok (s, .rx e)
  | .processUsed =>
    match s.clientPut env .processUsedVring with
    | .error e => .error e
    | .ok (s, .reclaimed) => .ok (s.setClientPc .sendPacket, .tx .reclaimed)
    | .ok (s, e) => .ok (s, .tx e)
  | .sendPacket =>
    match s.clientPut env (.putVring p) with
    | .error e => .error e
    | .ok (s, .accepted aIdx buf) => .ok (s.setClientPc .kick, .tx (.accepted aIdx buf))
    | .ok (s, .refused) => .ok (s.setClientPc .traverse, .tx .refused)
    | .ok (s, e) => .ok (s, .tx e)
  | .kick => .ok ((s.signal vhostClientVringIdxTx).setClientPc .traverse, .quiet)

/--
The client with its rings made, before `init_vhost_client`, and the server connected to it.
-/
def init (shm : Nat → VhostVring) : System where
  shm i := newVring (env.shm i).toNat (shm i)
  kicks _ := 0
  toServer := []
  toClient := []
  client := {
    pc := .init env.initVhostClient
    features := 0
    vring := fun _ => { num := vhostVringSize.toUInt32, lastAvailIdx := 0, lastUsedIdx := 0 }
    put := .idle
    get := .idle }
  server := newVhostServer env.listenSock env.sock
  serverPc := .traverse
  serverGet := .idle
  serverPut := .idle
  buffer := List.replicate VhostUser.bufferSize 0
  bufferSize := 0

end System

/--
Which process takes its next step: the client, with the packet that it would send, or the server, with what the
memory of a message holds.
-/
inductive SystemAct where
  | client (p : List UInt8)
  | server (stack : ServerMsg)

def system (env : Env) : Machine System SystemAct Out Halt where
  step s act :=
    match act with
    | .client p => s.clientStep env p
    | .server stack => s.serverStep env stack

end VhostUser
