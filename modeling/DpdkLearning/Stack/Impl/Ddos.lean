import DpdkLearning.Lib.Memory
import DpdkLearning.Stack.Impl.Basic

/-!
This module contains the detector that compares the entropies of the last packets with that of all of them
together.
-/

open Lib

namespace NgStack

def countBitPairs (v : UInt64) : UInt64 :=
  v - ((v >>> 1) &&& (0x5555555555555555 : UInt64))

def countBitNibbles (v : UInt64) : UInt64 :=
  (v &&& (0x3333333333333333 : UInt64)) + ((v >>> 2) &&& (0x3333333333333333 : UInt64))

def countBitBytes (v : UInt64) : UInt64 :=
  (v + (v >>> 4)) &&& (0x0F0F0F0F0F0F0F0F : UInt64)

/--
What `count_bit` adds for a word.
-/
def countBitWord (v : UInt64) : UInt64 :=
  let v := countBitPairs v
  let v := countBitNibbles v
  let v := countBitBytes v
  (v * 0x0101010101010101) >>> ((8 - 1) * 8)

/--
The loop of `count_bit`. It takes a word before it asks whether there is one.
-/
def countBitLoop (m : Memory) (ptr stop : Nat) (setBits : UInt64) : UInt64 :=
  let setBits := setBits + countBitWord (m.load64 ptr)
  if stop > ptr + 8 then
    countBitLoop m (ptr + 8) stop setBits
  else
    setBits
termination_by stop - ptr

def countBit (m : Memory) (msg : Nat) (length : UInt32) : UInt32 :=
  (countBitLoop m msg (msg + length.toNat) 0).toUInt32

def ddosEntropy (setBits totalBits : Float) : Float :=
  (-setBits) * (setBits.log2 - totalBits.log2)
    - (totalBits - setBits) * ((totalBits - setBits).log2 - totalBits.log2)
    + totalBits.log2

def captureWindows : Nat := 256

def tresh : Float := 1200.0

structure DdosState where
  pSetbits : Nat → UInt32
  pTotbits : Nat → UInt32
  pEntropy : Nat → Float
  pktIdx : Nat
  flag : Bool

def DdosState.init : DdosState where
  pSetbits := fun _ => 0
  pTotbits := fun _ => 0
  pEntropy := fun _ => 0
  pktIdx := 0
  flag := false

/--
What `ddos_detect` reads of a packet: the memory its data lies in, and the length of its buffer.
-/
structure DdosPkt where
  mem : Memory
  msg : Nat
  bufLen : UInt16

def DdosPkt.setBits (pkt : DdosPkt) : UInt32 :=
  countBit pkt.mem pkt.msg pkt.bufLen.toUInt32

def DdosPkt.totBits (pkt : DdosPkt) : UInt32 :=
  pkt.bufLen.toUInt32 * 8

/--
The values of a step of the detection.
-/
structure DdosDetection where
  totalSet : UInt32
  totalBit : UInt32
  sumEntropy : Float
  entropy : Float

/--
The sums over the window.
-/
def DdosState.detection (s : DdosState) : DdosDetection :=
  let totalSet := (List.range captureWindows).foldl (fun total i => total + s.pSetbits i) 0
  let totalBit := (List.range captureWindows).foldl (fun total i => total + s.pTotbits i) 0
  let sumEntropy := (List.range captureWindows).foldl (fun sum i => sum + s.pEntropy i) 0
  { totalSet, totalBit, sumEntropy
    entropy := ddosEntropy totalSet.toNat.toFloat totalBit.toNat.toFloat }

def DdosState.record (s : DdosState) (pkt : DdosPkt) : DdosState :=
  let i := s.pktIdx % captureWindows
  { s with
    pSetbits := Function.update s.pSetbits i pkt.setBits
    pTotbits := Function.update s.pTotbits i pkt.totBits
    pEntropy := Function.update s.pEntropy i
      (ddosEntropy pkt.setBits.toNat.toFloat pkt.totBits.toNat.toFloat) }

/--
`ddos_detect`, with the detection if there was one.
-/
def ddosDetect (s : DdosState) (pkt : DdosPkt) : Except Halt (DdosState × Option DdosDetection) :=
  let s := s.record pkt
  if s.pktIdx ≥ captureWindows then
    let d := s.detection
    let attack := decide (tresh < d.sumEntropy - d.entropy)
    if attack && !s.flag then
      .error .exited
    else
      .ok ({ s with
        flag := attack
        pktIdx := (s.pktIdx + 1) % captureWindows + captureWindows }, some d)
  else
    .ok ({ s with pktIdx := s.pktIdx + 1 }, none)

end NgStack
