import Mathlib.Logic.Function.Basic

/-!
This module contains the load balancer of the flow table plugin: the node that sends packets on, and the
command that sets its interfaces.
-/

namespace Flowtable

inductive FlowtableNext where
  | ip4
  | drop
  | ethernetInput
  | loadBalancer
  | interfaceOutput
  deriving DecidableEq, Repr

/--
The members of `flow_info_t` that the load balancer reads or writes.
-/
structure FlowInfo where
  cachedNextNode : FlowtableNext
  offloaded : UInt16
  swIfIndexDst : UInt32
  swIfIndexRev : UInt32
  swIfIndexCurrent : UInt32

structure LoadbalancerRuntime where
  swIfIndexSource : UInt32
  swIfTarget : List UInt32
  lastTargetIndex : UInt32

abbrev FlowPtr := Nat

/--
A packet with a flow in `opaque`, and the interfaces it is to go through.
-/
structure VlibBuffer where
  flow : FlowPtr
  rx : UInt32
  tx : UInt32

structure LbState where
  rt : LoadbalancerRuntime
  flows : FlowPtr → FlowInfo

/--
Why the node does not come back.
-/
inductive LbHalt where
  | outOfBounds
  deriving DecidableEq, Repr

/--
The index of the target that comes behind the one at `last`.
-/
def nextTargetIndex (swIfTarget : List UInt32) (last : UInt32) : UInt32 :=
  let last := last + 1
  if last.toNat ≥ swIfTarget.length then 0 else last

/--
What the inner loop of `load_balance` does with a packet.
-/
def loadBalancePkt (s : LbState) (b0 : VlibBuffer) : Except LbHalt (LbState × VlibBuffer) :=
  let rt := s.rt
  let fi := s.flows b0.flow
  let swIfIndex0 := fi.swIfIndexCurrent
  let fi := { fi with offloaded := 1, cachedNextNode := .interfaceOutput, swIfIndexRev := rt.swIfIndexSource }
  let last := nextTargetIndex rt.swIfTarget rt.lastTargetIndex
  match rt.swIfTarget[last.toNat]? with
  | none => .error .outOfBounds
  | some target =>
    let fi := { fi with swIfIndexDst := target }
    let tx := if swIfIndex0 = rt.swIfIndexSource then fi.swIfIndexRev else fi.swIfIndexDst
    .ok ({ rt := { rt with lastTargetIndex := last }, flows := Function.update s.flows b0.flow fi },
      { b0 with rx := swIfIndex0, tx })

/--
`load_balance`, with the packets as they are put into the frames of the next node. The inner loop of the source
ends where such a frame is full, and the outer one gets another, so that together they take one packet after
the other.
-/
def loadBalance (s : LbState) : List VlibBuffer → Except LbHalt (LbState × List VlibBuffer)
  | [] => .ok (s, [])
  | b0 :: rest =>
    match loadBalancePkt s b0 with
    | .error e => .error e
    | .ok (s, b0) =>
      match loadBalance s rest with
      | .error e => .error e
      | .ok (s, sent) => .ok (s, b0 :: sent)

/--
What the command finds next in its input. The index of an interface that is there is never `~0`.
-/
inductive Token where
  | wordTo
  | interface (swIfIndex : { i : UInt32 // i ≠ ~~~0 })
  | other

/--
The variables of the loop that reads the input.
-/
structure Parsed where
  swIfIndexSource : UInt32
  swIfIndex : UInt32
  swIfIndexTargets : List UInt32
  source : Bool

def Parsed.init : Parsed where
  swIfIndexSource := ~~~0
  swIfIndex := ~~~0
  swIfIndexTargets := []
  source := true

def parse (p : Parsed) : List Token → Parsed
  | [] => p
  | .wordTo :: rest => parse { p with source := false } rest
  | .interface i :: rest =>
    let p := { p with swIfIndex := i }
    if p.source then
      parse { p with swIfIndexSource := i } rest
    else
      parse { p with swIfIndexTargets := p.swIfIndexTargets ++ [i.val] } rest
  | .other :: _ => p

/--
What the command uses of the packet processing framework: two of its error codes, and what the calls of
`flowtable_enable` return, each for its number and its interface.
-/
structure Vnet where
  errorInvalidSwIfIndex : Int
  errorUnimplemented : Int
  flowtableEnable : Nat → UInt32 → Int

/--
The targets are added to those that the runtime has.
-/
def loadbalancerSetTargets (rt : LoadbalancerRuntime) (swIfIndexSource : UInt32)
    (swIfIndexTargets : List UInt32) : Int × LoadbalancerRuntime :=
  (0, { rt with swIfIndexSource, swIfTarget := rt.swIfTarget ++ swIfIndexTargets })

/--
The loop over the targets, which keeps what the last call returned.
-/
def enableTargets (vnet : Vnet) : Nat → Int → List UInt32 → Int
  | _, rv, [] => rv
  | i, _, v :: rest => enableTargets vnet (i + 1) (vnet.flowtableEnable i v) rest

def setLbTargetCommandFn (vnet : Vnet) (rt : LoadbalancerRuntime) (input : List Token)
    : Except String Unit × LoadbalancerRuntime :=
  let p := parse .init input
  if p.swIfIndex = ~~~0 then
    (.error "No Source Interface specified", rt)
  else if p.swIfIndexTargets.length ≤ 0 then
    (.error "No Target Interface specified", rt)
  else
    let rv := vnet.flowtableEnable 0 p.swIfIndexSource
    let rv := enableTargets vnet 1 rv p.swIfIndexTargets
    if rv = 0 then
      let (rv, rt) := loadbalancerSetTargets rt p.swIfIndexSource p.swIfIndexTargets
      if rv ≠ 0 then
        (.error ("set interface loadbalancer return " ++ toString rv), rt)
      else
        (.ok (), rt)
    else if rv = vnet.errorInvalidSwIfIndex then
      (.error "Invalid interface", rt)
    else if rv = vnet.errorUnimplemented then
      (.error "Device driver doesn't support redirection", rt)
    else
      (.error ("flowtable_enable return " ++ toString rv), rt)

end Flowtable
