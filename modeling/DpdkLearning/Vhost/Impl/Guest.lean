import DpdkLearning.Lib.Machine
import DpdkLearning.Vhost.Impl.Virtqueue

/-!
This module contains the guest at the other end of a queue, and the machine in which it publishes
descriptors while the backend takes them.
-/

open Lib

namespace Vhost

/--
The guest writes a head into the next slot of the avail ring and moves `avail->idx` on.
-/
def SharedMem.publish (mem : SharedMem) (vq : Virtqueue) (head : UInt16) : SharedMem :=
  { mem with
    avail := fun a =>
      if a = vq.avail then
        { idx := (mem.avail a).idx + 1
          ring := fun j => if j = (mem.avail a).idx.toNat % vq.num.toNat then head else (mem.avail a).ring j }
      else
        mem.avail a }

/--
The heads that a call has put into the used ring, as far as it has moved `last_used_idx`.
-/
def givenBack (vq vq' : Virtqueue) (mem' : SharedMem) : List UInt16 :=
  (List.range (vq'.lastUsedIdx - vq.lastUsedIdx).toNat).map (fun i =>
    ((mem'.used vq.used).ring ((vq.lastUsedIdx.toNat + i) % vq.num.toNat)).id.toUInt16)

/--
The backend and the memory it shares with the guest, with the heads that the guest has published and that
the backend has given back so far.
-/
structure QueueSys where
  dev : VhostDev
  mem : SharedMem
  published : List UInt16
  consumed : List UInt16

structure TxCall where
  newMbuf : Nat → Bool
  npkts : UInt16

structure RxCall where
  pkts : Nat → Mbuf
  npkts : Int

inductive QueueAct (κ : Type) where
  | publish (head : UInt16)
  | call (c : κ)

/--
What the guest and the caller do not do: publish more than `num` heads, ask for more than a call is promised,
write where only the other end of a ring does.
-/
inductive Refused where
  | full
  | badCall
  | badStore

namespace QueueSys

variable {κ : Type}

/--
A call that goes wrong leaves the system where it is.
-/
def afterCall (s : QueueSys) (qidx : Fin maxMultiQueue) : Except Misuse Burst → QueueSys
  | .error _ => s
  | .ok burst =>
    { s with
      dev := s.dev.setQueue qidx burst.vq
      mem := burst.mem
      consumed := s.consumed ++ givenBack (s.dev.queue qidx) burst.vq burst.mem }

def step (qidx : Fin maxMultiQueue) (allowed : VhostDev → κ → Bool)
    (call : VhostDev → SharedMem → κ → Except Misuse Burst) (s : QueueSys)
    : QueueAct κ → Except Refused (QueueSys × Option (Except Misuse Burst))
  | .publish head =>
    if s.published.length < s.consumed.length + (s.dev.queue qidx).num.toNat then
      .ok ({ s with
        mem := s.mem.publish (s.dev.queue qidx) head
        published := s.published ++ [head] }, none)
    else
      .error .full
  | .call c =>
    if allowed s.dev c then
      .ok (s.afterCall qidx (call s.dev s.mem c), some (call s.dev s.mem c))
    else
      .error .badCall

end QueueSys

abbrev QueueMachine (κ : Type) := Machine QueueSys (QueueAct κ) (Option (Except Misuse Burst)) Refused

abbrev QueueStep (κ : Type) := Edge QueueSys (QueueAct κ) (Option (Except Misuse Burst))

/--
The guest sends over queue 1. `vhost_tx` is asked for at most `num` packets.
-/
def txMachine : QueueMachine TxCall where
  step := QueueSys.step vhostTxQidx
    (fun dev c => decide (c.npkts.toNat ≤ (dev.queue vhostTxQidx).num.toNat))
    (fun dev mem c => vhostTx c.newMbuf dev mem c.npkts)

end Vhost
