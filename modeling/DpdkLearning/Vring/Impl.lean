import DpdkLearning.Lib.Machine

/-!
This module contains the simulated ring of `virtio_test.py`: a producer that takes descriptors from a free
list, a consumer that takes them from the avail ring and gives them back over the used ring, and the
reclaim of what was given back.
-/

open Lib

namespace VirtioTest

variable {π : Type}

def vringDescFNext : Nat := 1

structure Desc (π : Type) where
  /-- `none` for the 0 of an unused descriptor -/
  addr : Option π
  next : Nat
  flag : Nat

/--
`Vring` with its `VringDesc`, `VringAvail` and `VringUsed`.
-/
structure Vring (π : Type) where
  vrDesc : Nat → Desc π
  loopFlag : Bool
  availIdx : Nat
  availRing : Nat → Nat
  usedIdx : Nat
  usedRing : Nat → Nat
  ringSize : Nat
  freeNum : Nat
  freeHead : Nat
  lastAvailIdx : Nat
  lastUsedIndex : Nat

inductive IndexError where
  | mk

/--
What a call returns, and the descriptors that it prints: those it has put on the avail ring, fetched from it
or put back on the free list.
-/
structure Out (π : Type) where
  pkts : Option (List (Option π))
  accepted : List Nat
  fetched : List Nat
  detached : List Nat

def Out.quiet : Out π where
  pkts := none
  accepted := []
  fetched := []
  detached := []

namespace Vring

/--
`Vring()`
-/
def new (descLen : Nat) : Vring π where
  vrDesc := fun i => ⟨none, i + 1, 0⟩
  loopFlag := false
  availIdx := 0
  availRing := fun _ => 0
  usedIdx := 0
  usedRing := fun _ => 0
  ringSize := descLen
  freeNum := descLen
  freeHead := 0
  lastAvailIdx := 0
  lastUsedIndex := 0

def setAddr (v : Vring π) (i : Nat) (pkt : π) : Vring π :=
  { v with vrDesc := fun j => if j = i then { v.vrDesc j with addr := some pkt } else v.vrDesc j }

def setNext (v : Vring π) (i next : Nat) : Vring π :=
  { v with vrDesc := fun j => if j = i then { v.vrDesc j with next } else v.vrDesc j }

def putRing (v : Vring π) (pkt : π) : Except IndexError (Vring π × Out π) :=
  if v.freeNum > 0 ∧ v.loopFlag = false then
    let buffIndex := v.freeHead
    if buffIndex < v.ringSize then
      let v := v.setAddr buffIndex pkt
      let v := { v with
        availRing := fun j => if j = v.availIdx % v.ringSize then buffIndex else v.availRing j
        availIdx := v.availIdx + 1
        freeNum := v.freeNum - 1
        freeHead := (v.vrDesc buffIndex).next }
      let v := if v.freeNum = 0 then { v with loopFlag := true } else v
      .ok (v, { (Out.quiet : Out π) with accepted := [buffIndex] })
    else
      .error .mk
  else
    .ok (v, .quiet)

/--
The loop of `get_ring` from `i` on: the packets, and the descriptors they came in.
-/
def getRingLoop (v : Vring π) (i : Nat)
    : Nat → Except IndexError (List (Option π) × List Nat × Vring π)
  | 0 => .ok ([], [], v)
  | n + 1 =>
    let buffIndex := v.availRing ((v.lastAvailIdx + i) % v.ringSize)
    if buffIndex < v.ringSize then
      let v := { v with
        usedRing := fun j => if j = v.usedIdx % v.ringSize then buffIndex else v.usedRing j
        usedIdx := (v.usedIdx + 1) % v.ringSize }
      match v.getRingLoop (i + 1) n with
      | .error e => .error e
      | .ok (pkts, fetched, v') =>
        .ok ((v.vrDesc buffIndex).addr :: pkts, buffIndex :: fetched, v')
    else
      .error .mk

/--
The difference of two indices modulo the ring size, as Python has it.
-/
def distance (v : Vring π) (i j : Nat) : Nat :=
  (((i : Int) - j) % v.ringSize).toNat

def getRing (v : Vring π) : Except IndexError (Vring π × Out π) :=
  let availIdx := v.availIdx
  if v.freeNum < v.ringSize then
    let pktsBuffIndexs := if v.loopFlag then v.ringSize else v.distance availIdx v.lastAvailIdx
    match v.getRingLoop 0 pktsBuffIndexs with
    | .error e => .error e
    | .ok (pkts, fetched, v) =>
      .ok ({ v with lastAvailIdx := availIdx, loopFlag := false },
        { (Out.quiet : Out π) with pkts := some pkts, fetched })
  else
    .ok (v, .quiet)

def detachBuf (v : Vring π) (head : Nat) : Except IndexError (Vring π) :=
  if head < v.ringSize then
    let (i, v) :=
      if (v.vrDesc head).flag = vringDescFNext then
        ((v.vrDesc head).next, { v with freeNum := v.freeNum + 1 })
      else
        (head, v)
    if i < v.ringSize then
      let v := v.setNext i v.freeHead
      .ok { v with freeNum := v.freeNum + 1, freeHead := head }
    else
      .error .mk
  else
    .error .mk

/--
Detach the descriptors in the `n` slots of the used ring from `last_used_index + i` on.
-/
def detachLoop (v : Vring π) (i : Nat) : Nat → Except IndexError (List Nat × Vring π)
  | 0 => .ok ([], v)
  | n + 1 =>
    let buffIndex := v.usedRing ((v.lastUsedIndex + i) % v.ringSize)
    match v.detachBuf buffIndex with
    | .error e => .error e
    | .ok v =>
      match v.detachLoop (i + 1) n with
      | .error e => .error e
      | .ok (detached, v) => .ok (buffIndex :: detached, v)

def freeUsedIndex (v : Vring π) : Except IndexError (Vring π × Out π) :=
  let usedIndex := v.usedIdx
  let lap := if v.freeNum = 0 ∧ usedIndex = v.lastUsedIndex ∧ v.loopFlag = false then v.ringSize else 0
  match v.detachLoop 0 lap with
  | .error e => .error e
  | .ok (detached, v) =>
    let freeIndex := v.distance usedIndex v.lastUsedIndex
    match v.detachLoop 0 freeIndex with
    | .error e => .error e
    | .ok (detached', v) =>
      .ok ({ v with lastUsedIndex := usedIndex },
        { (Out.quiet : Out π) with detached := detached ++ detached' })

end Vring

inductive Act (π : Type) where
  | putRing (pkt : π)
  | getRing
  | freeUsedIndex

/--
The calls of `produce` and `consume`, in any order.
-/
def machine (π : Type) : Machine (Vring π) (Act π) (Out π) IndexError where
  step v
    | .putRing pkt => v.putRing pkt
    | .getRing => v.getRing
    | .freeUsedIndex => v.freeUsedIndex

abbrev Step (π : Type) := Edge (Vring π) (Act π) (Out π)

abbrev Run {π : Type} := Machine.Run (machine π)

end VirtioTest
