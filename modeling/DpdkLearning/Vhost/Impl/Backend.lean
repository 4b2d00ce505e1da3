import DpdkLearning.Lib.Machine
import DpdkLearning.Lib.Memory
import DpdkLearning.Vhost.Impl.Virtqueue

/-!
This module contains the messages of `vhost.c`, their handler, and the machine in which they are handled
while the thread of `vhost_user_vnet_start` polls the queues.
-/

open Lib

namespace Vhost

/--
`VIRTIO_F_VERSION_1`, `VIRTIO_NET_F_GUEST_CSUM`, `VIRTIO_NET_F_GUEST_TSO4` and `VIRTIO_NET_F_GUEST_TSO6`.
-/
def vhostSupportedFeatures : UInt64 :=
  ((1 : UInt64) <<< 32) ||| ((1 : UInt64) <<< 1) ||| ((1 : UInt64) <<< 7) ||| ((1 : UInt64) <<< 8)

def vhostUserVersionMask : UInt32 := 0x3

def vhostUserReplyMask : UInt32 := (0x1 : UInt32) <<< 2

def vhostUserVersion : UInt32 := 0x1

/--
The requests that do more than to print.
-/
inductive Request where
  | getFeatures
  | setFeatures
  | setOwner
  | setMemTable
  | setVringNum
  | setVringAddr
  | setVringBase
  | setVringKick
  | setVringCall
  | other
  deriving DecidableEq, Repr

def Request.ofCode : Nat → Request
  | 1 => .getFeatures
  | 2 => .setFeatures
  | 3 => .setOwner
  | 5 => .setMemTable
  | 8 => .setVringNum
  | 9 => .setVringAddr
  | 10 => .setVringBase
  | 12 => .setVringKick
  | 13 => .setVringCall
  | _ => .other

/--
The size of the union in `struct vhost_user_msg`, whose largest member is the memory table.
-/
def unionSize : Nat := 8 + 32 * virtioMaxRegion

/--
A message on the socket: the header, the payload that the peer sends behind it, and the file descriptors
that come along.
-/
structure Received where
  request : UInt32
  flags : UInt32
  size : UInt32
  payload : List UInt8
  fds : Vector Int32 virtioMaxRegion

namespace Received

/--
What `recv` writes from the start of the union on.
-/
def written (msg : Received) : List UInt8 :=
  msg.payload.take msg.size.toNat

/--
The rest of the union is zero.
-/
def u32 (msg : Received) (off : Nat) : UInt32 :=
  Memory.toUInt32 ((List.range 4).map (fun i => msg.written.getD (off + i) 0))

def u64 (msg : Received) (off : Nat) : UInt64 :=
  (msg.u32 off).toUInt64 ||| (msg.u32 (off + 4)).toUInt64 <<< 32

def num (msg : Received) : UInt64 :=
  msg.u64 0

def stateIndex (msg : Received) : UInt32 :=
  msg.u32 0

def stateNum (msg : Received) : UInt32 :=
  msg.u32 4

def addrDesc (msg : Received) : UInt64 :=
  msg.u64 8

def addrUsed (msg : Received) : UInt64 :=
  msg.u64 16

def addrAvail (msg : Received) : UInt64 :=
  msg.u64 24

def region (msg : Received) (i : Nat) : VhostUserRegion where
  guestAddress := msg.u64 (8 + 32 * i)
  size := msg.u64 (16 + 32 * i)
  userAddress := msg.u64 (24 + 32 * i)
  mmapOffset := msg.u64 (32 + 32 * i)

def toMsg (msg : Received) : VhostUserMsg where
  memory :=
    { nregions := msg.u32 0
      regions := .ofFn (fun i => msg.region i) }
  fds := msg.fds

end Received

structure Backend where
  vhostSupportedFeatrues : UInt64
  virtiodev : Option VhostDev
  mem : SharedMem

structure Reply where
  flags : UInt32
  size : UInt32
  num : UInt64
  deriving DecidableEq, Repr

structure Out where
  reply : Option Reply
  closed : List Int32
  burst : Option Burst

def Out.quiet : Out where
  reply := none
  closed := []
  burst := none

def virtioDevZero : VhostDev where
  mem := none
  vq := .replicate maxMultiQueue virtqueueZero

namespace Backend

def withDev {α : Type} (b : Backend) (f : VhostDev → Except Misuse α) : Except Misuse α :=
  match b.virtiodev with
  | none => .error .nullDev
  | some dev => f dev

/--
`virtiodev->vq[index]`
-/
def withQueue {α : Type} (b : Backend) (index : Nat)
    (f : VhostDev → Fin maxMultiQueue → Except Misuse α) : Except Misuse α :=
  b.withDev (fun dev => if h : index < maxMultiQueue then f dev ⟨index, h⟩ else .error .queueIndex)

def setQueue (b : Backend) (dev : VhostDev) (qidx : Fin maxMultiQueue) (vq : Virtqueue) : Backend :=
  { b with virtiodev := some (dev.setQueue qidx vq) }

/--
The file descriptor that comes with a message for queue `num & 0xff`.
-/
def vringFd (msg : Received) : Int32 :=
  if msg.num &&& 0x100 ≠ 0 then -1 else msg.fds[0]

/--
A descriptor that is open is closed before the next one takes its place.
-/
def closeOld (fd : Int32) : List Int32 :=
  if fd > 0 then [fd] else []

def vhostUserMsgHandler (env : Env) (b : Backend) (msg : Received) : Except Misuse (Backend × Out) :=
  match Request.ofCode msg.request.toNat with
  | .getFeatures =>
    .ok (b, { Out.quiet with
      reply := some {
        flags := ((msg.flags &&& ~~~vhostUserVersionMask) ||| vhostUserVersion) ||| vhostUserReplyMask
        size := 8
        num := b.vhostSupportedFeatrues } })
  | .setFeatures => .ok ({ b with vhostSupportedFeatrues := msg.num }, .quiet)
  | .setOwner =>
    if env.malloc then
      .ok ({ b with virtiodev := some virtioDevZero }, .quiet)
    else
      .error .nullDev
  | .setMemTable =>
    b.withDev (fun dev =>
      match vhostUserSetMemTable env dev.toVirtioDev msg.toMsg with
      | .error e => .error (.ofFault e)
      | .ok (_, dev') => .ok ({ b with virtiodev := some { dev with toVirtioDev := dev' } }, .quiet))
  | .setVringNum =>
    b.withQueue msg.stateIndex.toNat (fun dev qidx =>
      .ok (b.setQueue dev qidx { dev.queue qidx with num := msg.stateNum }, .quiet))
  | .setVringAddr =>
    b.withQueue msg.stateIndex.toNat (fun dev qidx => do
      let desc ← dev.gvaToHva msg.addrDesc
      let avail ← dev.gvaToHva msg.addrAvail
      let used ← dev.gvaToHva msg.addrUsed
      -- the last `printf` looks at `vq->desc->addr`
      if desc = 0 then
        .error .nullRing
      else
        return (b.setQueue dev qidx { dev.queue qidx with desc, avail, used }, .quiet))
  | .setVringBase =>
    b.withQueue msg.stateIndex.toNat (fun dev qidx =>
      .ok (b.setQueue dev qidx { dev.queue qidx with lastUsedIdx := msg.stateNum }, .quiet))
  | .setVringKick =>
    b.withQueue (msg.num &&& 0xff).toNat (fun dev qidx =>
      .ok (b.setQueue dev qidx { dev.queue qidx with kickfd := vringFd msg },
        { Out.quiet with closed := closeOld (dev.queue qidx).kickfd }))
  | .setVringCall =>
    b.withQueue (msg.num &&& 0xff).toNat (fun dev qidx =>
      .ok (b.setQueue dev qidx { dev.queue qidx with callfd := vringFd msg },
        { Out.quiet with closed := closeOld (dev.queue qidx).callfd }))
  | .other => .ok (b, .quiet)

/--
One message of the loop in `main`.
-/
def receive (env : Env) (b : Backend) (msg : Received) : Except Misuse (Backend × Out) :=
  if msg.written.length > unionSize then
    .error .unionOverflow
  else
    b.vhostUserMsgHandler env msg

/--
The thread of `vhost_user_vnet_start` calls nothing before there is a device.
-/
def poll (b : Backend) (qidx : Fin maxMultiQueue)
    (call : VhostDev → SharedMem → Except Misuse Burst) : Except Misuse (Backend × Out) :=
  match b.virtiodev with
  | none => .ok (b, .quiet)
  | some dev =>
    match call dev b.mem with
    | .error e => .error e
    | .ok burst =>
      .ok ({ b with virtiodev := some (dev.setQueue qidx burst.vq), mem := burst.mem },
        { Out.quiet with burst := some burst })

inductive Act where
  | message (env : Env) (msg : Received)
  /-- the guest writes into the memory it shares -/
  | guest (mem : SharedMem)
  | vhostTx (newMbuf : Bool)
  | vhostRx (pkt : Mbuf)

def step (b : Backend) : Act → Except Misuse (Backend × Out)
  | .message env msg => b.receive env msg
  | .guest mem => .ok ({ b with mem }, .quiet)
  | .vhostTx newMbuf => b.poll vhostTxQidx (fun dev mem => Vhost.vhostTx (fun _ => newMbuf) dev mem 1)
  | .vhostRx pkt => b.poll vhostRxQidx (fun dev mem => Vhost.vhostRx dev mem vhostRxQidx (fun _ => pkt) 1)

def init (mem : SharedMem) : Backend where
  vhostSupportedFeatrues := vhostSupportedFeatures
  virtiodev := none
  mem

end Backend

def backendMachine : Machine Backend Backend.Act Out Misuse where
  step := Backend.step

end Vhost
