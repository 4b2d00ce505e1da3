import DpdkLearning.Vhost.Impl.MemTable

/-!
This module contains the queues that the backend of `vhost.c` shares with its guest, and the two functions
that move packets through them. What the guest shares is read as the type that the backend has for the
address, and rings and buffers are kept apart. `Vhost.Impl.GuestMem` has them in one memory, and
`Vhost.Lemmas.GuestMem` has it when that makes no difference.
-/

namespace Vhost

def maxMultiQueue : Nat := 256

def maxPktBurst : Nat := 256

def mbufDataLength : UInt32 := 1024

/--
The size of `struct virtio_net_hdr`.
-/
def hdrlen : Nat := 12

structure VirtqDesc where
  addr : UInt64
  len : UInt32
  next : UInt16
  deriving DecidableEq, Repr

structure VirtqAvail where
  idx : UInt16
  ring : Nat → UInt16

structure VirtqUsedElem where
  id : UInt32
  len : UInt32
  deriving DecidableEq, Repr

structure VirtqUsed where
  idx : UInt16
  ring : Nat → VirtqUsedElem

/--
The memory that the backend shares with the guest, by the addresses that the backend has for it.
-/
structure SharedMem where
  desc : UInt64 → Nat → VirtqDesc
  avail : UInt64 → VirtqAvail
  used : UInt64 → VirtqUsed
  bytes : UInt64 → UInt8

/--
The pointers are addresses, 0 for `NULL`.
-/
structure Virtqueue where
  desc : UInt64
  avail : UInt64
  used : UInt64
  kickfd : Int32
  callfd : Int32
  num : UInt32
  lastUsedIdx : UInt32
  deriving DecidableEq, Repr

def virtqueueZero : Virtqueue where
  desc := 0
  avail := 0
  used := 0
  kickfd := 0
  callfd := 0
  num := 0
  lastUsedIdx := 0

/--
The whole of `struct virtio_dev`, the queues beside the memory table.
-/
structure VhostDev extends VirtioDev where
  vq : Vector Virtqueue maxMultiQueue

/--
What the C code must not do.
-/
inductive Misuse where
  | nullDev
  | nullMem
  | nullRing
  | queueIndex
  | regionIndex
  | unionOverflow
  | zeroNum
  | burstOverflow
  deriving DecidableEq, Repr

/--
What goes wrong in a scan of the memory table.
-/
def Misuse.ofFault : Fault → Misuse
  | .nullPointer => .nullMem
  | .outOfBounds => .regionIndex

/--
`hdr` and `data` are the bytes that were copied into the packet.
-/
structure Mbuf where
  hdr : List UInt8
  data : List UInt8
  len : UInt32
  deriving DecidableEq, Repr

def vhostNewMbuf : Mbuf where
  hdr := []
  data := []
  len := mbufDataLength

namespace SharedMem

def read (mem : SharedMem) (addr : UInt64) (n : Nat) : List UInt8 :=
  (List.range n).map (fun i => mem.bytes (addr + i.toUInt64))

def write (mem : SharedMem) (addr : UInt64) (bytes : List UInt8) : SharedMem :=
  { mem with
    bytes := fun a =>
      if (a - addr).toNat < bytes.length then bytes.getD (a - addr).toNat 0 else mem.bytes a }

/--
`used->ring[i] = elem`
-/
def setUsed (mem : SharedMem) (used : UInt64) (i : Nat) (elem : VirtqUsedElem) : SharedMem :=
  { mem with
    used := fun a =>
      if a = used then
        { mem.used a with ring := fun j => if j = i then elem else (mem.used a).ring j }
      else
        mem.used a }

/--
`used->idx += n`
-/
def addUsedIdx (mem : SharedMem) (used : UInt64) (n : Nat) : SharedMem :=
  { mem with
    used := fun a =>
      if a = used then { mem.used a with idx := (mem.used a).idx + n.toUInt16 } else mem.used a }

end SharedMem

/--
`gpa_to_hva` where a fault ends the program.
-/
def VhostDev.gpaToHva (dev : VhostDev) (gpaAddr : UInt64) : Except Misuse UInt64 :=
  (Vhost.gpaToHva dev.toVirtioDev gpaAddr).mapError .ofFault

def VhostDev.gvaToHva (dev : VhostDev) (gvaAddr : UInt64) : Except Misuse UInt64 :=
  (Vhost.gvaToHva dev.toVirtioDev gvaAddr).mapError .ofFault

def copyDescToMbuf (dev : VhostDev) (vq : Virtqueue) (mem : SharedMem) (mbuf : Mbuf) (descIdx : UInt16)
    : Except Misuse Mbuf :=
  let desc := mem.desc vq.desc descIdx.toNat
  match dev.gpaToHva desc.addr with
  | .error e => .error e
  | .ok descAddr =>
    let descPktLen := desc.len - hdrlen.toUInt32
    let hdr := mem.read descAddr hdrlen
    if descPktLen > 0 then
      .ok { hdr, data := mem.read (descAddr + hdrlen.toUInt64) descPktLen.toNat, len := descPktLen }
    else
      .ok { mbuf with hdr }

/--
What a call of `vhost_tx` or `vhost_rx` leaves behind.
-/
structure Burst where
  ret : Nat
  pkts : List Mbuf
  vq : Virtqueue
  mem : SharedMem
  /-- the descriptor that is told about it -/
  notified : Option Int32

/--
The second loop of `vhost_tx`, from packet `i` on. `newMbuf` tells for which packets there is memory.
-/
def vhostTxLoop (newMbuf : Nat → Bool) (dev : VhostDev) (vq : Virtqueue) (mem : SharedMem) (i : Nat)
    : List UInt16 → Except Misuse (List Mbuf × Virtqueue × SharedMem)
  | [] => .ok ([], vq, mem)
  | descIdx :: descIdxs =>
    if newMbuf i then
      match copyDescToMbuf dev vq mem vhostNewMbuf descIdx with
      | .error e => .error e
      | .ok mbuf =>
        let usedIdx := vq.lastUsedIdx % vq.num
        match vhostTxLoop newMbuf dev { vq with lastUsedIdx := vq.lastUsedIdx + 1 }
            (mem.setUsed vq.used usedIdx.toNat ⟨descIdx.toUInt32, 0⟩) (i + 1) descIdxs with
        | .error e => .error e
        | .ok (pkts, vq, mem) => .ok (mbuf :: pkts, vq, mem)
    else
      .ok ([], vq, mem)

/--
`dev->vq[qidx]`
-/
def VhostDev.queue (dev : VhostDev) (qidx : Fin maxMultiQueue) : Virtqueue :=
  dev.vq[qidx]

def VhostDev.setQueue (dev : VhostDev) (qidx : Fin maxMultiQueue) (vq : Virtqueue) : VhostDev :=
  { dev with vq := dev.vq.set qidx vq }

def vhostTxQidx : Fin maxMultiQueue :=
  ⟨1, by decide⟩

/--
The queue on which `vhost_user_vnet_start` calls `vhost_rx`.
-/
def vhostRxQidx : Fin maxMultiQueue :=
  ⟨0, by decide⟩

/--
The array `desc_idx` has place for `maxPktBurst` descriptors.
-/
def vhostTx (newMbuf : Nat → Bool) (dev : VhostDev) (mem : SharedMem) (npkts : UInt16)
    : Except Misuse Burst :=
  let vq := dev.queue vhostTxQidx
  if dev.mem = none ∨ vq.desc = 0 ∨ vq.avail = 0 ∨ vq.used = 0 then
    .ok { ret := 0, pkts := [], vq, mem, notified := none }
  else if npkts ≠ 0 ∧ vq.num = 0 then
    .error .zeroNum
  else if npkts.toNat > maxPktBurst then
    .error .burstOverflow
  else
    let descIdx := (List.range npkts.toNat).map
      (fun i => (mem.avail vq.avail).ring ((vq.lastUsedIdx + i.toUInt32) % vq.num).toNat)
    match vhostTxLoop newMbuf dev vq mem 0 descIdx with
    | .error e => .error e
    | .ok (pkts, vq, mem) =>
      .ok { ret := pkts.length, pkts, vq, mem := mem.addUsedIdx vq.used pkts.length, notified := none }

def copyMbufToDesc (dev : VhostDev) (vq : Virtqueue) (mem : SharedMem) (mbuf : Mbuf) (descIdx : UInt32)
    : Except Misuse SharedMem :=
  if vq.desc = 0 then
    .error .nullRing
  else
    let desc := mem.desc vq.desc descIdx.toNat
    match dev.gpaToHva desc.addr with
    | .error e => .error e
    | .ok addr =>
      let mem := mem.write addr (.replicate hdrlen 0)
      if desc.len.toUInt64 - hdrlen.toUInt64 = 0 then
        let desc := mem.desc vq.desc desc.next.toNat
        match dev.gpaToHva desc.addr with
        | .error e => .error e
        | .ok addr => .ok (mem.write addr (mbuf.data.take mbuf.len.toNat))
      else
        .ok mem

/--
The second loop of `vhost_rx`, from packet `i` on.
-/
def vhostRxLoop (pkts : Nat → Mbuf) (dev : VhostDev) (vq : Virtqueue) (mem : SharedMem) (i : Nat)
    : List UInt32 → Except Misuse (Virtqueue × SharedMem)
  | [] => .ok (vq, mem)
  | descIdx :: descIdxs =>
    match copyMbufToDesc dev vq mem (pkts i) descIdx with
    | .error e => .error e
    | .ok mem =>
      let usedIdx := (vq.lastUsedIdx &&& (vq.num - 1)).toUInt16
      if vq.used = 0 then
        .error .nullRing
      else
        vhostRxLoop pkts dev { vq with lastUsedIdx := vq.lastUsedIdx + 1 }
          (mem.setUsed vq.used usedIdx.toNat ⟨descIdx, (pkts i).len + hdrlen.toUInt32⟩) (i + 1) descIdxs

/--
The difference of `avail->idx` and `last_used_idx`, as an `int`.
-/
def vhostRxNavail (vq : Virtqueue) (mem : SharedMem) : Int :=
  ((mem.avail vq.avail).idx.toUInt32 - vq.lastUsedIdx).toInt32.toInt

def vhostRx (dev : VhostDev) (mem : SharedMem) (qidx : Fin maxMultiQueue) (pkts : Nat → Mbuf) (npkts : Int)
    : Except Misuse Burst :=
  let vq := dev.queue qidx
  if vq.avail = 0 then
    .error .nullRing
  else
    let navail := vhostRxNavail vq mem
    let npkts := min npkts navail
    let npkts := min npkts maxPktBurst
    if npkts = 0 then
      .ok { ret := 0, pkts := [], vq, mem, notified := none }
    else
      let descIdx := (List.range npkts.toNat).map
        (fun i => ((mem.avail vq.avail).ring
          ((vq.lastUsedIdx + i.toUInt32) &&& (vq.num - 1)).toNat).toUInt32)
      match vhostRxLoop pkts dev vq mem 0 descIdx with
      | .error e => .error e
      | .ok (vq, mem) =>
        if vq.used = 0 then
          .error .nullRing
        else
          .ok {
            ret := npkts.toNat
            pkts := []
            vq
            mem := mem.addUsedIdx vq.used npkts.toNat
            notified := some vq.callfd }

end Vhost
