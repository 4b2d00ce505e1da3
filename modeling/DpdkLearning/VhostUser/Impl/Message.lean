import DpdkLearning.VhostUser.Impl.Vring

/-!
This module contains the messages that a client sends to set up its rings: `vhost_ioctl`, which makes them, and
the functions that send and receive them with file descriptors over a socket.
-/

open Lib

namespace VhostUser

def vhostMemoryMaxNregions : Nat := 8

/--
`VHOST_USER_HDR_SIZE`
-/
def vhostUserHdrSize : Nat := 12

/--
`sizeof(VhostUserMsg)`, whose union is as large as the memory table.
-/
def vhostUserMsgSize : Nat := 276

def vhostUserVersion : UInt32 := 1

def vhostUserVersionMask : UInt32 := 3

def vhostUserReplyMask : UInt32 := 4

structure VhostVringState where
  index : UInt32
  num : UInt32
  deriving DecidableEq

structure VhostVringAddr where
  index : UInt32
  flags : UInt32
  descUserAddr : UInt64
  usedUserAddr : UInt64
  availUserAddr : UInt64
  logGuestAddr : UInt64
  deriving DecidableEq

structure VhostVringFile where
  index : UInt32
  fd : Int
  deriving DecidableEq

structure VhostUserMemoryRegion where
  guestPhysAddr : UInt64
  memorySize : UInt64
  userspaceAddr : UInt64
  mmapOffset : UInt64
  deriving DecidableEq

/--
The first `nregions` of the eight regions.
-/
structure VhostUserMemory where
  padding : UInt32
  regions : List VhostUserMemoryRegion
  deriving DecidableEq

def VhostVringState.bytes (s : VhostVringState) : List UInt8 :=
  Memory.ofUInt32 s.index ++ Memory.ofUInt32 s.num

def VhostVringAddr.bytes (a : VhostVringAddr) : List UInt8 :=
  Memory.ofUInt32 a.index ++ Memory.ofUInt32 a.flags ++ Memory.ofUInt64 a.descUserAddr
    ++ Memory.ofUInt64 a.usedUserAddr ++ Memory.ofUInt64 a.availUserAddr ++ Memory.ofUInt64 a.logGuestAddr

def VhostUserMemoryRegion.bytes (r : VhostUserMemoryRegion) : List UInt8 :=
  Memory.ofUInt64 r.guestPhysAddr ++ Memory.ofUInt64 r.memorySize ++ Memory.ofUInt64 r.userspaceAddr
    ++ Memory.ofUInt64 r.mmapOffset

def VhostUserMemory.bytes (m : VhostUserMemory) : List UInt8 :=
  Memory.ofUInt32 m.regions.length.toUInt32 ++ Memory.ofUInt32 m.padding
    ++ m.regions.flatMap VhostUserMemoryRegion.bytes

/--
`VhostUserMsg`, which is packed, as its bytes.
-/
structure VhostUserMsg where
  mem : Memory

namespace VhostUserMsg

def request (msg : VhostUserMsg) : UInt32 := msg.mem.load32 0

def flags (msg : VhostUserMsg) : UInt32 := msg.mem.load32 4

def size (msg : VhostUserMsg) : UInt32 := msg.mem.load32 8

def u64 (msg : VhostUserMsg) : UInt64 := msg.mem.load64 12

def state (msg : VhostUserMsg) : VhostVringState where
  index := msg.mem.load32 12
  num := msg.mem.load32 16

def addr (msg : VhostUserMsg) : VhostVringAddr where
  index := msg.mem.load32 12
  flags := msg.mem.load32 16
  descUserAddr := msg.mem.load64 20
  usedUserAddr := msg.mem.load64 28
  availUserAddr := msg.mem.load64 36
  logGuestAddr := msg.mem.load64 44

def nregions (msg : VhostUserMsg) : UInt32 := msg.mem.load32 12

def region (msg : VhostUserMsg) (i : Nat) : VhostUserMemoryRegion where
  guestPhysAddr := msg.mem.load64 (20 + 32 * i)
  memorySize := msg.mem.load64 (28 + 32 * i)
  userspaceAddr := msg.mem.load64 (36 + 32 * i)
  mmapOffset := msg.mem.load64 (44 + 32 * i)

def setRequest (msg : VhostUserMsg) (v : UInt32) : VhostUserMsg := ⟨msg.mem.store32 0 v⟩

def setFlags (msg : VhostUserMsg) (v : UInt32) : VhostUserMsg := ⟨msg.mem.store32 4 v⟩

def setSize (msg : VhostUserMsg) (v : UInt32) : VhostUserMsg := ⟨msg.mem.store32 8 v⟩

def setU64 (msg : VhostUserMsg) (v : UInt64) : VhostUserMsg := ⟨msg.mem.store64 12 v⟩

/--
A message with some bytes at the start of the union, and their number as its size.
-/
def setPayload (msg : VhostUserMsg) (bytes : List UInt8) : VhostUserMsg :=
  VhostUserMsg.setSize ⟨msg.mem.store 12 bytes⟩ bytes.length.toUInt32

end VhostUserMsg

/--
The requests that `vhost_ioctl` is called with, each with what `arg` points to.
-/
inductive Ioctl where
  | none
  | getFeatures
  | setFeatures (u64 : UInt64)
  | setOwner
  | resetOwner
  | setMemTable (memory : VhostUserMemory)
  | setLogBase (u64 : UInt64)
  | setLogFd (fd : Int)
  | setVringNum (state : VhostVringState)
  | setVringAddr (addr : VhostVringAddr)
  | setVringBase (state : VhostVringState)
  | getVringBase
  | setVringKick (file : VhostVringFile)
  | setVringCall (file : VhostVringFile)
  | setVringErr (file : VhostVringFile)
  deriving DecidableEq

def Ioctl.request : Ioctl → UInt32
  | .none => 0
  | .getFeatures => 1
  | .setFeatures _ => 2
  | .setOwner => 3
  | .resetOwner => 4
  | .setMemTable _ => 5
  | .setLogBase _ => 6
  | .setLogFd _ => 7
  | .setVringNum _ => 8
  | .setVringAddr _ => 9
  | .setVringBase _ => 10
  | .getVringBase => 11
  | .setVringKick _ => 12
  | .setVringCall _ => 13
  | .setVringErr _ => 14

def Ioctl.needReply : Ioctl → Bool
  | .getFeatures => true
  | .getVringBase => true
  | _ => false

/--
The index of a ring, and the descriptor if it is one.
-/
def VhostVringFile.payload (file : VhostVringFile) : List UInt8 × List Int :=
  (Memory.ofUInt64 file.index.toUInt64, if file.fd > 0 then [file.fd] else [])

/--
What `vhost_ioctl` puts into the union and the descriptors that go with it. The table of eight descriptors is
filled without a look at its end.
-/
def Ioctl.payload (shmFds : Nat → Int) : Ioctl → Except Halt (List UInt8 × List Int)
  | .none => .ok ([], [])
  | .getFeatures => .ok ([], [])
  | .setFeatures u64 => .ok (Memory.ofUInt64 u64, [])
  | .setOwner => .ok ([], [])
  | .resetOwner => .ok ([], [])
  | .setMemTable memory =>
    if memory.regions.length ≤ vhostMemoryMaxNregions then
      .ok (memory.bytes, (List.range memory.regions.length).map shmFds)
    else
      .error .outOfBounds
  | .setLogBase u64 => .ok (Memory.ofUInt64 u64, [])
  | .setLogFd fd => .ok ([], [fd])
  | .setVringNum state => .ok (state.bytes, [])
  | .setVringAddr addr => .ok (addr.bytes, [])
  | .setVringBase state => .ok (state.bytes, [])
  | .getVringBase => .ok ([], [])
  | .setVringKick file => .ok file.payload
  | .setVringCall file => .ok file.payload
  | .setVringErr file => .ok file.payload

/--
The message that `vhost_ioctl` makes of a request, and its descriptors.
-/
def vhostIoctl (shmFds : Nat → Int) (ioctl : Ioctl) : Except Halt (VhostUserMsg × List Int) :=
  match ioctl.payload shmFds with
  | .error e => .error e
  | .ok (bytes, fds) =>
    let msg : VhostUserMsg := ⟨fun _ => 0⟩
    let msg := msg.setRequest ioctl.request
    let msg := msg.setFlags (msg.flags &&& ~~~vhostUserVersionMask ||| vhostUserVersion)
    .ok (msg.setPayload bytes, fds)

/--
One direction of a connected stream socket: what the calls of `sendmsg` have put in, without what was read.
-/
abbrev Socket : Type := List (List UInt8 × List Int)

/--
`recvmsg` of at most `n` bytes, and the descriptors that came with them. It blocks if there are none.
-/
def Socket.recvmsg (s : Socket) (n : Nat) : Option (List UInt8 × List Int × Socket) :=
  match s with
  | [] => none
  | (bytes, fds) :: rest =>
    some (bytes.take n, fds, if bytes.length ≤ n then rest else (bytes.drop n, []) :: rest)

/--
`read` of at most `n` bytes.
-/
def Socket.read (s : Socket) (n : Nat) : Option (List UInt8 × Socket) :=
  if n = 0 then
    some ([], s)
  else
    match s.recvmsg n with
    | none => none
    | some (bytes, _, s) => some (bytes, s)

/--
`vhost_user_send_fds` in a process that has the descriptors `opened`, with what it returns. `sendmsg` puts in
nothing if one of the descriptors is not open.
-/
def vhostUserSendFds (opened : Int → Bool) (s : Socket) (msg : VhostUserMsg) (fds : List Int) : Int × Socket :=
  let bytes := msg.mem.load 0 (vhostUserHdrSize + msg.size.toNat)
  if fds.all opened then (bytes.length, s ++ [(bytes, fds)]) else (-1, s)

/--
What `vhost_user_recv_fds` returns, with the message and the descriptors as far as they were received.
-/
structure Received where
  ret : Int
  msg : VhostUserMsg
  fds : List Int
  socket : Socket

/--
`vhost_user_recv_fds` into a message with room for `fdNum` descriptors, which is 8 in the server and 0 in the
client, or `none` where it blocks. If there are more of them than the control data has room for, which is a
multiple of eight bytes, the message is truncated.
-/
def vhostUserRecvFds (s : Socket) (msg : VhostUserMsg) (fdNum : Nat) : Except Halt (Option Received) :=
  match s.recvmsg vhostUserHdrSize with
  | none => .ok none
  | some (bytes, fds, s) =>
    let msg : VhostUserMsg := ⟨msg.mem.store 0 bytes⟩
    if fds.length > (fdNum + 1) / 2 * 2 then
      .ok (some { ret := -1, msg, fds := [], socket := s })
    else
      let fds := if fds.length ≤ fdNum then fds else []
      match s.read msg.size.toNat with
      | none => .ok none
      | some (payload, s) =>
        if bytes.length + payload.length ≤ vhostUserMsgSize then
          .ok (some { ret := bytes.length, msg := ⟨msg.mem.store bytes.length payload⟩, fds, socket := s })
        else
          .error .outOfBounds

end VhostUser
