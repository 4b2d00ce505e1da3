import DpdkLearning.Lib.AddrSpace
import DpdkLearning.Vhost.Impl.Guest

/-!
This module contains the queues of `vhost.c` in the one memory that the backend shares with its guest: rings,
descriptors and buffers are bytes of it, and a copy that runs over the end of a buffer may well change them.
Different addresses of the backend are different bytes.
-/

open Lib

namespace Vhost

/--
The bytes that the backend shares with the guest, by the addresses that the backend has for them.
-/
structure GuestMem where
  bytes : AddrSpace

def virtqDescSize : Nat := 16

def virtqUsedElemSize : Nat := 8

/--
`&desc[i]`
-/
def virtqDescAt (desc : UInt64) (i : Nat) : UInt64 :=
  desc + (virtqDescSize * i).toUInt64

/--
`&used->ring[i]`
-/
def virtqUsedElemAt (used : UInt64) (i : Nat) : UInt64 :=
  used + (4 + virtqUsedElemSize * i).toUInt64

namespace GuestMem

def desc (mem : GuestMem) (desc : UInt64) (i : Nat) : VirtqDesc where
  addr := mem.bytes.load64 (virtqDescAt desc i)
  len := mem.bytes.load32 (virtqDescAt desc i + 8)
  next := mem.bytes.load16 (virtqDescAt desc i + 14)

def avail (mem : GuestMem) (avail : UInt64) : VirtqAvail where
  idx := mem.bytes.load16 (avail + 2)
  ring i := mem.bytes.load16 (avail + (4 + 2 * i).toUInt64)

def used (mem : GuestMem) (used : UInt64) : VirtqUsed where
  idx := mem.bytes.load16 (used + 2)
  ring i := {
    id := mem.bytes.load32 (virtqUsedElemAt used i)
    len := mem.bytes.load32 (virtqUsedElemAt used i + 4) }

/--
What the rings, the descriptors and the buffers hold.
-/
def view (mem : GuestMem) : SharedMem where
  desc := mem.desc
  avail := mem.avail
  used := mem.used
  bytes := mem.bytes

def write (mem : GuestMem) (addr : UInt64) (bytes : List UInt8) : GuestMem :=
  ⟨mem.bytes.store addr bytes⟩

/--
`used->ring[i].id` and `used->ring[i].len` one after the other
-/
def setUsed (mem : GuestMem) (used : UInt64) (i : Nat) (elem : VirtqUsedElem) : GuestMem :=
  ⟨(mem.bytes.store32 (virtqUsedElemAt used i) elem.id).store32 (virtqUsedElemAt used i + 4) elem.len⟩

/--
`used->idx += n`
-/
def addUsedIdx (mem : GuestMem) (used : UInt64) (n : Nat) : GuestMem :=
  ⟨mem.bytes.store16 (used + 2) ((mem.used used).idx + n.toUInt16)⟩

/--
The guest writes a head into the next slot of the avail ring and moves `avail->idx` on.
-/
def publish (mem : GuestMem) (vq : Virtqueue) (head : UInt16) : GuestMem :=
  let idx := (mem.avail vq.avail).idx
  ⟨(mem.bytes.store16 (vq.avail + (4 + 2 * (idx.toNat % vq.num.toNat)).toUInt64) head).store16
    (vq.avail + 2) (idx + 1)⟩

/--
What a call of `vhost_tx` or `vhost_rx` leaves behind.
-/
structure Burst where
  ret : Nat
  pkts : List Mbuf
  vq : Virtqueue
  mem : GuestMem
  /-- the descriptor that is told about it -/
  notified : Option Int32

/--
The second loop of `vhost_tx`, from packet `i` on. `newMbuf` tells for which packets there is memory.
-/
def vhostTxLoop (newMbuf : Nat → Bool) (dev : VhostDev) (vq : Virtqueue) (mem : GuestMem) (i : Nat)
    : List UInt16 → Except Misuse (List Mbuf × Virtqueue × GuestMem)
  | [] => .ok ([], vq, mem)
  | descIdx :: descIdxs =>
    if newMbuf i then
      match copyDescToMbuf dev vq mem.view vhostNewMbuf descIdx with
      | .error e => .error e
      | .ok mbuf =>
        let usedIdx := vq.lastUsedIdx % vq.num
        match vhostTxLoop newMbuf dev { vq with lastUsedIdx := vq.lastUsedIdx + 1 }
            (mem.setUsed vq.used usedIdx.toNat ⟨descIdx.toUInt32, 0⟩) (i + 1) descIdxs with
        | .error e => .error e
        | .ok (pkts, vq, mem) => .ok (mbuf :: pkts, vq, mem)
    else
      .ok ([], vq, mem)

/--
The array `desc_idx` has place for `maxPktBurst` descriptors.
-/
def vhostTx (newMbuf : Nat → Bool) (dev : VhostDev) (mem : GuestMem) (npkts : UInt16)
    : Except Misuse Burst :=
  let vq := dev.queue vhostTxQidx
  if dev.mem = none ∨ vq.desc = 0 ∨ vq.avail = 0 ∨ vq.used = 0 then
    .ok { ret := 0, pkts := [], vq, mem, notified := none }
  else if npkts ≠ 0 ∧ vq.num = 0 then
    .error .zeroNum
  else if npkts.toNat > maxPktBurst then
    .error .burstOverflow
  else
    let descIdx := (List.range npkts.toNat).map
      (fun i => (mem.avail vq.avail).ring ((vq.lastUsedIdx + i.toUInt32) % vq.num).toNat)
    match vhostTxLoop newMbuf dev vq mem 0 descIdx with
    | .error e => .error e
    | .ok (pkts, vq, mem) =>
      .ok { ret := pkts.length, pkts, vq, mem := mem.addUsedIdx vq.used pkts.length, notified := none }

/--
The descriptor is read again after the zeros of the header are written.
-/
def copyMbufToDesc (dev : VhostDev) (vq : Virtqueue) (mem : GuestMem) (mbuf : Mbuf) (descIdx : UInt32)
    : Except Misuse GuestMem :=
  if vq.desc = 0 then
    .error .nullRing
  else
    match dev.gpaToHva (mem.desc vq.desc descIdx.toNat).addr with
    | .error e => .error e
    | .ok addr =>
      let mem := mem.write addr (.replicate hdrlen 0)
      let desc := mem.desc vq.desc descIdx.toNat
      if desc.len.toUInt64 - hdrlen.toUInt64 = 0 then
        let desc := mem.desc vq.desc desc.next.toNat
        match dev.gpaToHva desc.addr with
        | .error e => .error e
        | .ok addr => .ok (mem.write addr (mbuf.data.take mbuf.len.toNat))
      else
        .ok mem

/--
The second loop of `vhost_rx`, from packet `i` on.
-/
def vhostRxLoop (pkts : Nat → Mbuf) (dev : VhostDev) (vq : Virtqueue) (mem : GuestMem) (i : Nat)
    : List UInt32 → Except Misuse (Virtqueue × GuestMem)
  | [] => .ok (vq, mem)
  | descIdx :: descIdxs =>
    match copyMbufToDesc dev vq mem (pkts i) descIdx with
    | .error e => .error e
    | .ok mem =>
      let usedIdx := (vq.lastUsedIdx &&& (vq.num - 1)).toUInt16
      if vq.used = 0 then
        .error .nullRing
      else
        vhostRxLoop pkts dev { vq with lastUsedIdx := vq.lastUsedIdx + 1 }
          (mem.setUsed vq.used usedIdx.toNat ⟨descIdx, (pkts i).len + hdrlen.toUInt32⟩) (i + 1) descIdxs

def vhostRx (dev : VhostDev) (mem : GuestMem) (qidx : Fin maxMultiQueue) (pkts : Nat → Mbuf) (npkts : Int)
    : Except Misuse Burst :=
  let vq := dev.queue qidx
  if vq.avail = 0 then
    .error .nullRing
  else
    let navail := vhostRxNavail vq mem.view
    let npkts := min npkts navail
    let npkts := min npkts maxPktBurst
    if npkts = 0 then
      .ok { ret := 0, pkts := [], vq, mem, notified := none }
    else
      let descIdx := (List.range npkts.toNat).map
        (fun i => ((mem.avail vq.avail).ring
          ((vq.lastUsedIdx + i.toUInt32) &&& (vq.num - 1)).toNat).toUInt32)
      match vhostRxLoop pkts dev vq mem 0 descIdx with
      | .error e => .error e
      | .ok (vq, mem) =>
        if vq.used = 0 then
          .error .nullRing
        else
          .ok {
            ret := npkts.toNat
            pkts := []
            vq
            mem := mem.addUsedIdx vq.used npkts.toNat
            notified := some vq.callfd }

end GuestMem

end Vhost
