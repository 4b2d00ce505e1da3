import DpdkLearning.VhostUser.Impl.Message

/-!
This module contains what a server does with the messages of its client: it maps the memory of the client and
keeps where the rings are and how it is to be told of them.
-/

open Lib

namespace VhostUser

def vhostClientVringIdxRx : Nat := 0

def vhostClientVringIdxTx : Nat := 1

def vhostClientVringNum : Nat := 2

def vhostUserVringIdxMask : UInt64 := 0xff

def vhostUserVringNofdMask : UInt64 := 0x100

def fdListSize : Nat := 10

structure FdNode (η : Type) where
  fd : Int
  handler : Option η
  deriving DecidableEq

/--
The nodes for reading. There are none for writing.
-/
abbrev FdList (η : Type) : Type := List (FdNode η)

namespace FdList

variable {η : Type}

def resetFdNode : FdNode η := { fd := -1, handler := none }

def init : FdList η := List.replicate fdListSize resetFdNode

def findFdNodeByFd (l : FdList η) (fd : Int) : Option Nat :=
  l.findIdx? (fun node => node.fd = fd)

/--
`add_fd_list`. Nothing looks at what it returns.
-/
def add (l : FdList η) (fd : Int) (handler : η) : FdList η :=
  match l.findFdNodeByFd (-1) with
  | none => l
  | some i => l.set i { fd, handler := some handler }

def del (l : FdList η) (fd : Int) : FdList η :=
  match l.findFdNodeByFd fd with
  | none => l
  | some i => l.set i resetFdNode

/--
The descriptors that `select` is asked about.
-/
def fdSet (l : FdList η) : List Int :=
  (l.map FdNode.fd).filter (fun fd => fd ≠ -1)

end FdList

inductive ServerHandler where
  | acceptSock
  | receiveSock
  | kick
  deriving DecidableEq

structure VhostServerMemoryRegion where
  guestPhysAddr : UInt64
  memorySize : UInt64
  userspaceAddr : UInt64
  mmapAddr : UInt64
  deriving DecidableEq

structure VhostServerMemory where
  nregions : UInt32
  regions : Nat → VhostServerMemoryRegion

/--
What the server knows of a ring. The pointers are addresses of the server, 0 for `NULL`.
-/
structure ServerVring where
  kickfd : Int
  callfd : Int
  desc : UInt64
  avail : UInt64
  used : UInt64
  vring : Vring
  deriving DecidableEq

structure VhostServer where
  memory : VhostServerMemory
  vring : Nat → ServerVring
  isPolling : Bool
  fdList : FdList ServerHandler

/--
A message with its descriptors, of which the first `fdNum` were received.
-/
structure ServerMsg where
  msg : VhostUserMsg
  fdNum : Nat
  fds : Nat → Int

/--
`new_vhost_server`, once a client is connected at `sock`.
-/
def newVhostServer (listenSock sock : Int) : VhostServer where
  memory := { nregions := 0, regions := fun _ => ⟨0, 0, 0, 0⟩ }
  vring _ := {
    kickfd := -1, callfd := -1, desc := 0, avail := 0, used := 0
    vring := { num := 0, lastAvailIdx := 0, lastUsedIdx := 0 } }
  isPolling := false
  fdList := FdList.add (FdList.add FdList.init listenSock .acceptSock) sock .receiveSock

namespace VhostServerMemory

/--
The address of the server for one of the client, by the first region that the address is in.
-/
def mapAddr (start : VhostServerMemoryRegion → UInt64) (m : VhostServerMemory) (addr : UInt64) : UInt64 :=
  match (List.range m.nregions.toNat).find? (fun i =>
    start (m.regions i) ≤ addr ∧ addr < start (m.regions i) + (m.regions i).memorySize) with
  | none => 0
  | some i => (m.regions i).mmapAddr + addr - start (m.regions i)

def mapGuestAddr (m : VhostServerMemory) (addr : UInt64) : UInt64 :=
  m.mapAddr VhostServerMemoryRegion.guestPhysAddr addr

def mapUserAddr (m : VhostServerMemory) (addr : UInt64) : UInt64 :=
  m.mapAddr VhostServerMemoryRegion.userspaceAddr addr

end VhostServerMemory

/--
What the operating system and the shared memory answer to a handler: where `mmap` puts a descriptor and a
size, and the index of the used ring at an address.
-/
structure Host where
  mmap : Int → UInt64 → UInt64
  usedIdx : UInt64 → Option UInt16

/--
What a handler leaves, with the message and whether it is sent back.
-/
structure Handled where
  server : VhostServer
  msg : VhostUserMsg
  reply : Bool

/--
An index that came as one of 32 bits and is taken for a signed number.
-/
def vringIdx (index : UInt32) : Except Halt Nat :=
  let idx := index.toInt32.toInt
  if idx < vhostClientVringNum then
    if 0 ≤ idx then .ok idx.toNat else .error .outOfBounds
  else
    .error .assertion

namespace VhostServer

def setVring (s : VhostServer) (idx : Nat) (v : ServerVring) : VhostServer :=
  { s with vring := Function.update s.vring idx v }

def getFeatures (s : VhostServer) (msg : ServerMsg) : Handled where
  server := s
  msg := (msg.msg.setU64 0).setSize 8
  reply := true

/--
The handlers that only print.
-/
def printed (s : VhostServer) (msg : ServerMsg) : Handled where
  server := s
  msg := msg.msg
  reply := false

/--
The loop of `_set_mem_table` over `n` regions from `idx` on.
-/
def setMemTableLoop (host : Host) (m : VhostServerMemory) (msg : ServerMsg) (idx : Nat)
    : Nat → Except Halt VhostServerMemory
  | 0 => .ok m
  | n + 1 =>
    if idx < vhostMemoryMaxNregions then
      if msg.fds idx > 0 then
        if idx < msg.fdNum then
          let r := msg.msg.region idx
          let region := {
            guestPhysAddr := r.guestPhysAddr
            memorySize := r.memorySize
            userspaceAddr := r.userspaceAddr
            mmapAddr := host.mmap (msg.fds idx) r.memorySize + r.mmapOffset }
          let m := { nregions := m.nregions + 1, regions := Function.update m.regions idx region }
          setMemTableLoop host m msg (idx + 1) n
        else
          .error .assertion
      else
        setMemTableLoop host m msg (idx + 1) n
    else
      .error .outOfBounds

def setMemTable (host : Host) (s : VhostServer) (msg : ServerMsg) : Except Halt Handled :=
  match setMemTableLoop host { s.memory with nregions := 0 } msg 0 msg.msg.nregions.toNat with
  | .error e => .error e
  | .ok memory => .ok { server := { s with memory }, msg := msg.msg, reply := false }

def setVringNum (s : VhostServer) (msg : ServerMsg) : Except Halt Handled :=
  match vringIdx msg.msg.state.index with
  | .error e => .error e
  | .ok idx =>
    let v := s.vring idx
    let v := { v with vring := { v.vring with num := msg.msg.state.num } }
    .ok { server := s.setVring idx v, msg := msg.msg, reply := false }

def setVringAddr (host : Host) (s : VhostServer) (msg : ServerMsg) : Except Halt Handled :=
  match vringIdx msg.msg.addr.index with
  | .error e => .error e
  | .ok idx =>
    let v := { s.vring idx with
      desc := s.memory.mapUserAddr msg.msg.addr.descUserAddr
      avail := s.memory.mapUserAddr msg.msg.addr.availUserAddr
      used := s.memory.mapUserAddr msg.msg.addr.usedUserAddr }
    match host.usedIdx v.used with
    | none => .error .unmapped
    | some usedIdx =>
      let v := { v with vring := { v.vring with lastUsedIdx := usedIdx } }
      .ok { server := s.setVring idx v, msg := msg.msg, reply := false }

def setVringBase (s : VhostServer) (msg : ServerMsg) : Except Halt Handled :=
  match vringIdx msg.msg.state.index with
  | .error e => .error e
  | .ok idx =>
    let v := s.vring idx
    let v := { v with vring := { v.vring with lastAvailIdx := msg.msg.state.num.toUInt16 } }
    .ok { server := s.setVring idx v, msg := msg.msg, reply := false }

def getVringBase (s : VhostServer) (msg : ServerMsg) : Except Halt Handled :=
  match vringIdx msg.msg.state.index with
  | .error e => .error e
  | .ok idx =>
    let num := (s.vring idx).vring.lastAvailIdx.toUInt32
    let msg : VhostUserMsg := ⟨msg.msg.mem.store32 16 num⟩
    .ok { server := s, msg := msg.setSize 8, reply := true }

/--
The ring and the descriptor of a message, `none` if it says that there is none.
-/
def vringFile (msg : ServerMsg) : Except Halt (Nat × Option Int) :=
  let idx := (msg.msg.u64 &&& vhostUserVringIdxMask).toNat
  if idx < vhostClientVringNum then
    if msg.msg.u64 &&& vhostUserVringNofdMask = 0 then
      if msg.fdNum = 1 then .ok (idx, some (msg.fds 0)) else .error .assertion
    else
      .ok (idx, none)
  else
    .error .assertion

def setVringKick (s : VhostServer) (msg : ServerMsg) : Except Halt Handled :=
  match vringFile msg with
  | .error e => .error e
  | .ok (idx, some fd) =>
    let s := s.setVring idx { s.vring idx with kickfd := fd }
    let fdList := if idx = vhostClientVringIdxTx then FdList.add s.fdList fd .kick else s.fdList
    .ok { server := { s with fdList, isPolling := false }, msg := msg.msg, reply := false }
  | .ok (_, none) => .ok { server := { s with isPolling := true }, msg := msg.msg, reply := false }

def setVringCall (s : VhostServer) (msg : ServerMsg) : Except Halt Handled :=
  match vringFile msg with
  | .error e => .error e
  | .ok (idx, some fd) =>
    .ok { server := s.setVring idx { s.vring idx with callfd := fd }, msg := msg.msg, reply := false }
  | .ok (_, none) => .ok { server := s, msg := msg.msg, reply := false }

/--
`in_msg_server` with its table of handlers. The handlers of `VHOST_USER_SET_FEATURES`, `SET_OWNER`,
`RESET_OWNER`, `SET_LOG_BASE`, `SET_LOG_FD` and `SET_VRING_ERR` are the ones that only print.
-/
def inMsgServer (host : Host) (s : VhostServer) (msg : ServerMsg) : Except Halt Handled :=
  match msg.msg.request.toNat with
  | 1 => .ok (s.getFeatures msg)
  | 2 => .ok (s.printed msg)
  | 3 => .ok (s.printed msg)
  | 4 => .ok (s.printed msg)
  | 5 => s.setMemTable host msg
  | 6 => .ok (s.printed msg)
  | 7 => .ok (s.printed msg)
  | 8 => s.setVringNum msg
  | 9 => s.setVringAddr host msg
  | 10 => s.setVringBase msg
  | 11 => s.getVringBase msg
  | 12 => s.setVringKick msg
  | 13 => s.setVringCall msg
  | 14 => .ok (s.printed msg)
  | _ => .error .assertion

end VhostServer

end VhostUser
