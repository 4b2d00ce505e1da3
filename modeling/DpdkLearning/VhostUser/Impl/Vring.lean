import DpdkLearning.Lib.Machine
import DpdkLearning.Lib.Memory

/-!
This module contains the rings of `vring_test/vring.c`: the tables and buffers that two processes share, and
the functions that each of them has for a ring. A call of such a function is split into steps, none of which
touches more than one of the objects that the other process can see at the same time.
-/

open Lib

namespace VhostUser

def vhostVringSize : Nat := 32 * 1024

def ethPacketSize : Nat := 1518

/--
`sizeof(struct virtio_net_hdr)`
-/
def hdrLen : Nat := 10

def bufferSize : Nat := hdrLen + ethPacketSize

def bufferAlignment : Nat := 8

/--
`sizeof(struct vhost_vring)`, with the tables at 8, 524296 and 593920.
-/
def vhostVringBytes : Nat := 860160

/--
`VHOST_CLIENT_PAGE_SIZE`, the size of the shared memory that a ring is made in.
-/
def pageSize : Nat := 49 * (1024 * 1024)

def vringIdxNone : UInt16 := 65535

def virtioDescFNext : UInt16 := 1

def virtioDescFWrite : UInt16 := 2

structure VringDesc where
  addr : UInt64
  len : UInt32
  flags : UInt16
  next : UInt16
  deriving DecidableEq, Repr

structure VringUsedElem where
  id : UInt32
  len : UInt32
  deriving DecidableEq, Repr

/--
A piece of shared memory that a ring was made in: the tables of `struct vhost_vring`, and all of its bytes
that the buffers are in, by their offset.
-/
structure VhostVring where
  desc : Nat → VringDesc
  availIdx : UInt16
  availRing : Nat → UInt16
  usedIdx : UInt16
  usedRing : Nat → VringUsedElem
  bytes : Memory

/--
What a process keeps of a ring for itself. For the side that puts packets into the ring `lastAvailIdx` is the
head of the free list, for the other it counts the descriptors that it has taken.
-/
structure Vring where
  num : UInt32
  lastAvailIdx : UInt16
  lastUsedIdx : UInt16
  deriving DecidableEq, Repr

/--
Why a call does not come back: an index behind the end of an array or a copy behind the end of a buffer, an
address that is not in the shared memory, a failed assertion, a division by zero.
-/
inductive Halt where
  | outOfBounds
  | unmapped
  | assertion
  | zeroNum
  deriving DecidableEq, Repr

/--
The pointer that an address is aligned to. The alignment is a power of two.
-/
def align (v b : Nat) : Nat := (v + b - 1) / b * b

/--
The loop of `new_vring` over the descriptors from `i` on.
-/
def newVringLoop (v : VhostVring) (i ptr : Nat) : Nat → VhostVring
  | 0 => v
  | n + 1 =>
    let ptr := align ptr bufferAlignment
    let desc := {
      addr := ptr.toUInt64
      len := bufferSize.toUInt32
      flags := virtioDescFWrite
      next := (i + 1).toUInt16 }
    newVringLoop { v with desc := Function.update v.desc i desc } (i + 1) (ptr + bufferSize) n

/--
`new_vring`. The entries of the two rings keep what the shared memory held.
-/
def newVring (vringBase : Nat) (v : VhostVring) : VhostVring :=
  let v := newVringLoop v 0 (vringBase + vhostVringBytes) vhostVringSize
  let last := vhostVringSize - 1
  { v with
    desc := Function.update v.desc last { v.desc last with next := vringIdxNone }
    availIdx := 0
    usedIdx := 0 }

/--
Where in a piece of shared memory an address of a process is that has `size` bytes of it at `base`.
-/
def mappedAt (base size : Nat) (addr : UInt64) : Option Nat :=
  if base ≤ addr.toNat ∧ addr.toNat < base + size then some (addr.toNat - base) else none

/--
What the putting side is doing: nothing, a call of `put_vring` before each of its writes, or the loop of
`process_used_vring`.
-/
inductive PutPc where
  | idle
  | copy (aIdx : UInt16) (destBuf : Nat) (buf : List UInt8)
  | describe (aIdx : UInt16) (buf : List UInt8)
  | offer (aIdx : UInt16) (buf : List UInt8)
  | publish (aIdx : UInt16) (buf : List UInt8)
  | reclaim (uIdx : UInt16)
  deriving DecidableEq

inductive PutCall where
  | putVring (buf : List UInt8)
  | processUsedVring

/--
What the other side is doing: nothing, the loop of `process_avail_vring`, the loop of `process_desc` over a
chain and what comes after it, or the last write of `process_avail_vring`.
-/
inductive GetPc where
  | idle
  | scan (aIdx : UInt16) (count : UInt32)
  | chain (aIdx : UInt16) (count : UInt32) (dIdx i : UInt16) (buf : List UInt8)
  | record (aIdx : UInt16) (count : UInt32) (dIdx : UInt16) (buf : List UInt8)
  | finish (count : UInt32)
  deriving DecidableEq

/--
What a step shows: a call that returns, or the handler being called with a packet and its size.
-/
inductive Event where
  | quiet
  | refused
  | accepted (aIdx : UInt16) (buf : List UInt8)
  | reclaimed
  | handled (dIdx : UInt16) (buf : List UInt8) (size : UInt64)
  | dropped
  | processed (count : UInt32)
  deriving DecidableEq

structure PutSide where
  vring : Vring
  pc : PutPc
  deriving DecidableEq

structure GetSide where
  vring : Vring
  pc : GetPc
  deriving DecidableEq

/--
The first step of `put_vring`, which takes the head of the free list.
-/
def putVring (map : UInt64 → Option Nat) (v : VhostVring) (s : PutSide) (buf : List UInt8)
    : Except Halt (PutSide × Event) :=
  let aIdx := s.vring.lastAvailIdx
  if aIdx.toNat < vhostVringSize then
    let desc := v.desc aIdx.toNat
    if buf.length > desc.len.toNat then
      .ok ({ s with pc := .idle }, .refused)
    else
      match map desc.addr with
      | none => .error .unmapped
      | some destBuf =>
        .ok ({ vring := { s.vring with lastAvailIdx := desc.next }, pc := .copy aIdx destBuf buf }, .quiet)
  else
    .error .outOfBounds

/--
An index modulo the size of the ring, as an index of the arrays.
-/
def slot (idx : UInt16) (num : UInt32) : Except Halt Nat :=
  if num = 0 then
    .error .zeroNum
  else if idx.toNat % num.toNat < vhostVringSize then
    .ok (idx.toNat % num.toNat)
  else
    .error .outOfBounds

/--
The index after `idx`, modulo the size of the ring.
-/
def nextIdx (idx : UInt16) (num : UInt32) : Except Halt UInt16 :=
  if num = 0 then .error .zeroNum else .ok ((idx.toNat + 1) % num.toNat).toUInt16

def freeVring (v : VhostVring) (q : Vring) (dIdx : UInt32) : Except Halt (VhostVring × Vring) :=
  let fIdx := q.lastAvailIdx
  if dIdx.toNat < vhostVringSize then
    let desc := v.desc dIdx.toNat
    let desc := { desc with
      len := bufferSize.toUInt32, flags := desc.flags ||| virtioDescFWrite, next := fIdx }
    .ok ({ v with desc := Function.update v.desc dIdx.toNat desc }, { q with lastAvailIdx := dIdx.toUInt16 })
  else
    .error .assertion

/--
One step of the side that puts packets. Between calls, `call` is what it calls next.
-/
def putStep (map : UInt64 → Option Nat) (call : PutCall) (v : VhostVring) (s : PutSide)
    : Except Halt (VhostVring × PutSide × Event) :=
  match s.pc with
  | .idle =>
    match call with
    | .putVring buf =>
      match putVring map v s buf with
      | .error e => .error e
      | .ok (s, e) => .ok (v, s, e)
    | .processUsedVring => .ok (v, { s with pc := .reclaim s.vring.lastUsedIdx }, .quiet)
  | .copy aIdx destBuf buf =>
    let bytes := v.bytes.store destBuf (List.replicate hdrLen 0)
    let bytes := bytes.store (destBuf + hdrLen) buf
    .ok ({ v with bytes }, { s with pc := .describe aIdx buf }, .quiet)
  | .describe aIdx buf =>
    let desc := { v.desc aIdx.toNat with
      len := (hdrLen + buf.length).toUInt32, flags := 0, next := vringIdxNone }
    .ok ({ v with desc := Function.update v.desc aIdx.toNat desc }, { s with pc := .offer aIdx buf }, .quiet)
  | .offer aIdx buf =>
    match slot v.availIdx s.vring.num with
    | .error e => .error e
    | .ok i =>
      .ok ({ v with availRing := Function.update v.availRing i aIdx }, { s with pc := .publish aIdx buf },
        .quiet)
  | .publish aIdx buf =>
    .ok ({ v with availIdx := v.availIdx + 1 }, { s with pc := .idle }, .accepted aIdx buf)
  | .reclaim uIdx =>
    if uIdx ≠ v.usedIdx then
      if uIdx.toNat < vhostVringSize then
        match freeVring v s.vring (v.usedRing uIdx.toNat).id with
        | .error e => .error e
        | .ok (v, q) =>
          match nextIdx uIdx q.num with
          | .error e => .error e
          | .ok uIdx => .ok (v, { vring := q, pc := .reclaim uIdx }, .quiet)
      else
        .error .outOfBounds
    else
      .ok (v, { vring := { s.vring with lastUsedIdx := uIdx }, pc := .idle }, .reclaimed)

/--
One round of the loop of `process_desc`: what was copied with this descriptor, and the next one if there is.
The sum of the lengths is one of 32 bits.
-/
def processDescRound (map : UInt64 → Option Nat) (v : VhostVring) (i : UInt16) (buf : List UInt8)
    : Except Halt (List UInt8 × Option UInt16) :=
  if i.toNat < vhostVringSize then
    let desc := v.desc i.toNat
    if (buf.length.toUInt32 + desc.len).toNat < ethPacketSize then
      if buf.length + desc.len.toNat ≤ ethPacketSize then
        match map desc.addr with
        | none => .error .unmapped
        | some cur =>
          let buf := buf ++ v.bytes.load cur desc.len.toNat
          if desc.flags &&& virtioDescFNext ≠ 0 then .ok (buf, some desc.next) else .ok (buf, none)
      else
        .error .outOfBounds
    else
      .ok (buf, none)
  else
    .error .outOfBounds

/--
What comes after that loop, and the rest of the round of `process_avail_vring`.
-/
def processDescEnd (v : VhostVring) (q : Vring) (aIdx : UInt16) (count : UInt32) (dIdx : UInt16)
    (buf : List UInt8) : Except Halt (VhostVring × GetSide × Event) :=
  match slot q.lastUsedIdx q.num, nextIdx aIdx q.num with
  | .error e, _ => .error e
  | _, .error e => .error e
  | .ok uIdx, .ok aIdx =>
    let q := { q with lastAvailIdx := q.lastAvailIdx + 1, lastUsedIdx := q.lastUsedIdx + 1 }
    let s := { vring := q, pc := .scan aIdx (count + 1) }
    if buf.isEmpty then
      .ok (v, s, .dropped)
    else
      let elem := { id := dIdx.toUInt32, len := buf.length.toUInt32 }
      .ok ({ v with usedRing := Function.update v.usedRing uIdx elem }, s,
        .handled dIdx (buf.drop hdrLen) (buf.length.toUInt64 - hdrLen.toUInt64))

/--
One step of the side that takes packets. Between calls it calls `process_avail_vring`.
-/
def getStep (map : UInt64 → Option Nat) (v : VhostVring) (s : GetSide)
    : Except Halt (VhostVring × GetSide × Event) :=
  match s.pc with
  | .idle =>
    match slot s.vring.lastAvailIdx s.vring.num with
    | .error e => .error e
    | .ok aIdx => .ok (v, { s with pc := .scan aIdx.toUInt16 0 }, .quiet)
  | .scan aIdx count =>
    if s.vring.lastAvailIdx = v.availIdx then
      .ok (v, { s with pc := .finish count }, .quiet)
    else if aIdx.toNat < vhostVringSize then
      let dIdx := v.availRing aIdx.toNat
      .ok (v, { s with pc := .chain aIdx count dIdx dIdx [] }, .quiet)
    else
      .error .outOfBounds
  | .chain aIdx count dIdx i buf =>
    match processDescRound map v i buf with
    | .error e => .error e
    | .ok (buf, some i) => .ok (v, { s with pc := .chain aIdx count dIdx i buf }, .quiet)
    | .ok (buf, none) => .ok (v, { s with pc := .record aIdx count dIdx buf }, .quiet)
  | .record aIdx count dIdx buf => processDescEnd v s.vring aIdx count dIdx buf
  | .finish count =>
    .ok ({ v with usedIdx := s.vring.lastUsedIdx }, { s with pc := .idle }, .processed count)

/--
A ring with the two sides that use it.
-/
structure Ring where
  shm : VhostVring
  put : PutSide
  get : GetSide

inductive Act where
  | put (call : PutCall)
  | get

/--
The steps of both sides, in any order.
-/
def ring (mapPut mapGet : UInt64 → Option Nat) : Machine Ring Act Event Halt where
  step s act :=
    match act with
    | .put call =>
      match putStep mapPut call s.shm s.put with
      | .error e => .error e
      | .ok (shm, put, e) => .ok ({ s with shm, put }, e)
    | .get =>
      match getStep mapGet s.shm s.get with
      | .error e => .error e
      | .ok (shm, get, e) => .ok ({ s with shm, get }, e)

/--
A ring just made, as both sides begin with it: nothing taken, and the first descriptor at the head of the free
list.
-/
def Ring.init (shm : VhostVring) : Ring where
  shm
  put := { vring := { num := vhostVringSize.toUInt32, lastAvailIdx := 0, lastUsedIdx := 0 }, pc := .idle }
  get := { vring := { num := vhostVringSize.toUInt32, lastAvailIdx := 0, lastUsedIdx := 0 }, pc := .idle }

end VhostUser
