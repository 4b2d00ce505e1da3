import DpdkLearning.Flowtable.Impl
import DpdkLearning.Lib.Fair
import DpdkLearning.Lib.Machine
import Mathlib.Data.List.GetD
import Mathlib.Logic.Function.Iterate

/-!
This module contains where the load balancer sends packets, over any run of frames, and for which runs it does
what it is for: to spread what comes from the source over the targets, and to send the answers back.
-/

open Lib

namespace Flowtable

/--
Between two frames any flow may get another interface.
-/
inductive LbAct where
  | current (flow : FlowPtr) (swIfIndex : UInt32)
  | frame (buffers : List VlibBuffer)

def lbMachine : Machine LbState LbAct (List VlibBuffer) LbHalt where
  step s
    | .current flow i =>
      .ok ({ s with flows := Function.update s.flows flow { s.flows flow with swIfIndexCurrent := i } }, [])
    | .frame buffers => loadBalance s buffers

abbrev LbStep := Edge LbState LbAct (List VlibBuffer)

abbrev LbRun := Machine.Run lbMachine

def currentsOf (flows : FlowPtr → FlowInfo) (buffers : List VlibBuffer) : List UInt32 :=
  buffers.map (fun b => (flows b.flow).swIfIndexCurrent)

namespace LbStep

/--
The current interfaces of the flows of the packets that come.
-/
def currents (e : LbStep) : List UInt32 :=
  match e.act with
  | .current _ _ => []
  | .frame buffers => currentsOf e.pre.flows buffers

/--
The current interface of each packet, and the one it is sent to.
-/
def routes (e : LbStep) : List (UInt32 × UInt32) :=
  e.currents.zip (e.out.map VlibBuffer.tx)

end LbStep

def currents (tr : List LbStep) : List UInt32 :=
  tr.flatMap LbStep.currents

def routes (tr : List LbStep) : List (UInt32 × UInt32) :=
  tr.flatMap LbStep.routes

/--
Packets from the source go to targets, those from elsewhere go to the source, and the packets from the source
can be dealt out to the slots of the targets so that no slot gets two more than another.
-/
structure Serves (source : UInt32) (targets : List UInt32) (routes : List (UInt32 × UInt32)) : Prop where
  forward : ∀ r ∈ routes, r.1 = source → r.2 ∈ targets
  backward : ∀ r ∈ routes, r.1 ≠ source → r.2 = source
  fair : ∃ slots : List Nat, Fair targets.length slots
    ∧ slots.map (fun i => targets[i]?) = (routes.filter (fun r => r.1 = source)).map (fun r => some r.2)

/--
What makes up for the exchanged branches. Either there is no interface but the source, or the packets from the
source are no more than the slots that have the source itself, and each of the other packets comes when the
index is at such a slot.
-/
def SourceOnly (source : UInt32) (targets : List UInt32) (last : UInt32) (currents : List UInt32) : Prop :=
  (∀ target ∈ targets, target = source)
    ∨ (currents.count source ≤ targets.count source
      ∧ ∀ k c, currents[k]? = some c → c ≠ source
        → targets[((nextTargetIndex targets)^[k + 1] last).toNat]? = some source)

/--
Where the code sends the packets. The index moves on with each of them.
-/
def routed (source : UInt32) (targets : List UInt32) (last : UInt32) (currents : List UInt32)
    : List (UInt32 × UInt32) :=
  currents.mapIdx (fun k c =>
    (c, if c = source then source else targets.getD ((nextTargetIndex targets)^[k + 1] last).toNat 0))

variable {source last : UInt32} {targets : List UInt32}

theorem nextTargetIndex_lt (h : targets ≠ []) (last : UInt32)
    : (nextTargetIndex targets last).toNat < targets.length := by
  have hpos := List.length_pos_of_ne_nil h
  unfold nextTargetIndex
  dsimp only
  split
  . simpa using hpos
  . omega

theorem routed_cons (c : UInt32) (rest : List UInt32)
    : routed source targets last (c :: rest)
        = (c, if c = source then source else targets.getD (nextTargetIndex targets last).toNat 0)
          :: routed source targets (nextTargetIndex targets last) rest := by
  rw [routed, List.mapIdx_cons]
  rfl

theorem routed_append (l1 l2 : List UInt32)
    : routed source targets last (l1 ++ l2)
        = routed source targets last l1
          ++ routed source targets ((nextTargetIndex targets)^[l1.length] last) l2 := by
  induction l1 generalizing last with
  | nil => rfl
  | cons c l1 ih =>
    rw [List.cons_append, routed_cons, routed_cons, ih, List.length_cons, Function.iterate_succ_apply]
    rfl

/--
What a frame leaves as it was, and how far it moves the index.
-/
structure Forwarded (n : Nat) (s s' : LbState) : Prop where
  source : s'.rt.swIfIndexSource = s.rt.swIfIndexSource
  targets : s'.rt.swIfTarget = s.rt.swIfTarget
  last : s'.rt.lastTargetIndex = (nextTargetIndex s.rt.swIfTarget)^[n] s.rt.lastTargetIndex
  current : ∀ flow, (s'.flows flow).swIfIndexCurrent = (s.flows flow).swIfIndexCurrent

theorem loadBalancePkt_forwarded (s : LbState) (h : s.rt.swIfTarget ≠ []) (b : VlibBuffer)
    : ∃ s' b', loadBalancePkt s b = .ok (s', b') ∧ Forwarded 1 s s'
        ∧ b'.rx = (s.flows b.flow).swIfIndexCurrent
        ∧ b'.tx = if (s.flows b.flow).swIfIndexCurrent = s.rt.swIfIndexSource then s.rt.swIfIndexSource
          else s.rt.swIfTarget.getD (nextTargetIndex s.rt.swIfTarget s.rt.lastTargetIndex).toNat 0 := by
  have hlt := nextTargetIndex_lt h s.rt.lastTargetIndex
  unfold loadBalancePkt
  dsimp only
  rw [List.getElem?_eq_getElem hlt]
  refine ⟨_, _, rfl, ⟨rfl, rfl, rfl, ?_⟩, rfl, ?_⟩
  . intro flow
    dsimp only
    rw [Function.update_apply]
    split
    . next heq => rw [heq]
    . rfl
  . rw [List.getD_eq_getElem _ _ hlt]

theorem Forwarded.trans {m n : Nat} {s1 s2 s3 : LbState} (h1 : Forwarded m s1 s2) (h2 : Forwarded n s2 s3)
    : Forwarded (m + n) s1 s3 where
  source := h2.source.trans h1.source
  targets := h2.targets.trans h1.targets
  last := by
    rw [h2.last, h1.targets, h1.last, ← Function.iterate_add_apply, Nat.add_comm]
  current := fun flow => (h2.current flow).trans (h1.current flow)

theorem Forwarded.currentsOf {n : Nat} {s s' : LbState} (h : Forwarded n s s') (buffers : List VlibBuffer)
    : currentsOf s'.flows buffers = currentsOf s.flows buffers := by
  apply List.map_congr_left
  intro b _
  exact h.current b.flow

theorem length_currentsOf (flows : FlowPtr → FlowInfo) (buffers : List VlibBuffer)
    : (currentsOf flows buffers).length = buffers.length := by
  rw [currentsOf, List.length_map]

/-- A frame comes back, and it sends each of its packets. -/
theorem loadBalance_forwarded (s : LbState) (h : s.rt.swIfTarget ≠ []) (buffers : List VlibBuffer)
    : ∃ s' sent, loadBalance s buffers = .ok (s', sent) ∧ Forwarded buffers.length s s'
        ∧ sent.map VlibBuffer.rx = currentsOf s.flows buffers
        ∧ (currentsOf s.flows buffers).zip (sent.map VlibBuffer.tx)
          = routed s.rt.swIfIndexSource s.rt.swIfTarget s.rt.lastTargetIndex (currentsOf s.flows buffers) := by
  induction buffers generalizing s with
  | nil => exact ⟨s, [], rfl, ⟨rfl, rfl, rfl, fun _ => rfl⟩, rfl, rfl⟩
  | cons b rest ih =>
    rcases loadBalancePkt_forwarded s h b with ⟨s1, b1, hpkt, hfwd, hrx, htx⟩
    have h1 : s1.rt.swIfTarget ≠ [] := by
      rw [hfwd.targets]
      exact h
    rcases ih s1 h1 with ⟨s2, sent, hrest, hfwd2, hrxs, hroutes⟩
    refine ⟨s2, b1 :: sent, ?_, ?_, ?_, ?_⟩
    . simp only [loadBalance, hpkt, hrest]
    . rw [List.length_cons, Nat.add_comm]
      exact hfwd.trans hfwd2
    . rw [List.map_cons, hrx, hrxs, hfwd.currentsOf]
      rfl
    . rw [hfwd.source, hfwd.targets, hfwd.last, Function.iterate_one, hfwd.currentsOf] at hroutes
      have hcons : currentsOf s.flows (b :: rest)
          = (s.flows b.flow).swIfIndexCurrent :: currentsOf s.flows rest := rfl
      rw [hcons, List.map_cons, List.zip_cons_cons, hroutes, routed_cons, htx]

/-- Every action can be taken, and the packets of a frame go where the code sends them. -/
theorem lbMachine_step (s : LbState) (h : s.rt.swIfTarget ≠ []) (a : LbAct)
    : ∃ t o, lbMachine.step s a = .ok (t, o)
        ∧ t.rt.swIfIndexSource = s.rt.swIfIndexSource
        ∧ t.rt.swIfTarget = s.rt.swIfTarget
        ∧ t.rt.lastTargetIndex
          = (nextTargetIndex s.rt.swIfTarget)^[(LbStep.currents ⟨s, a, o, t⟩).length] s.rt.lastTargetIndex
        ∧ LbStep.routes ⟨s, a, o, t⟩
          = routed s.rt.swIfIndexSource s.rt.swIfTarget s.rt.lastTargetIndex (LbStep.currents ⟨s, a, o, t⟩) := by
  cases a with
  | current flow i => exact ⟨_, _, rfl, rfl, rfl, rfl, rfl⟩
  | frame buffers =>
    rcases loadBalance_forwarded s h buffers with ⟨t, sent, hstep, hfwd, _, hroutes⟩
    refine ⟨t, sent, hstep, hfwd.source, hfwd.targets, ?_, hroutes⟩
    rw [hfwd.last, LbStep.currents, length_currentsOf]

/--
What a run of frames leaves as it was, where the index stands behind it, and where its packets went.
-/
structure Dealt (s : LbState) (tr : List LbStep) (t : LbState) : Prop where
  source : t.rt.swIfIndexSource = s.rt.swIfIndexSource
  targets : t.rt.swIfTarget = s.rt.swIfTarget
  last : t.rt.lastTargetIndex = (nextTargetIndex s.rt.swIfTarget)^[(currents tr).length] s.rt.lastTargetIndex
  routes : routes tr = routed s.rt.swIfIndexSource s.rt.swIfTarget s.rt.lastTargetIndex (currents tr)

theorem Dealt.snoc {s t u : LbState} {tr : List LbStep} {a : LbAct} {o : List VlibBuffer}
    (h : Dealt s tr t) (hne : s.rt.swIfTarget ≠ []) (hstep : lbMachine.step t a = .ok (u, o))
    : Dealt s (tr ++ [⟨t, a, o, u⟩]) u := by
  have hne' : t.rt.swIfTarget ≠ [] := by
    rw [h.targets]
    exact hne
  rcases lbMachine_step t hne' a with ⟨u', o', hstep', hsource, htargets, hlast, hroutes⟩
  rw [hstep] at hstep'
  cases hstep'
  have hcur : currents (tr ++ [⟨t, a, o, u⟩]) = currents tr ++ LbStep.currents ⟨t, a, o, u⟩ := by
    simp [currents]
  rw [h.targets] at hlast hroutes
  refine ⟨hsource.trans h.source, htargets.trans h.targets, ?_, ?_⟩
  . rw [hlast, h.last, hcur, List.length_append, ← Function.iterate_add_apply, Nat.add_comm]
  . have hrt : Flowtable.routes (tr ++ [⟨t, a, o, u⟩]) = Flowtable.routes tr ++ LbStep.routes ⟨t, a, o, u⟩ := by
      simp [Flowtable.routes]
    rw [hrt, hcur, routed_append, h.routes, hroutes, h.source, h.last]

theorem dealt_of_run {s t : LbState} {tr : List LbStep} (h : LbRun s tr t) (hne : s.rt.swIfTarget ≠ [])
    : Dealt s tr t := by
  apply h.history (P := fun tr t => Dealt s tr t)
  . exact ⟨rfl, rfl, rfl, rfl⟩
  . intro tr t a o u _ hdealt hstep
    exact hdealt.snoc hne hstep

theorem exists_lbRun (s : LbState) (hne : s.rt.swIfTarget ≠ []) (acts : List LbAct)
    : ∃ tr t, LbRun s tr t ∧ tr.map Edge.act = acts := by
  refine (Machine.exists_run_iff_guard (C := fun _ _ => True) ?_ acts).mpr ?_
  . intro tr t a hrun
    have hne' : t.rt.swIfTarget ≠ [] := by
      rw [(dealt_of_run hrun hne).targets]
      exact hne
    rcases lbMachine_step t hne' a with ⟨u, o, hstep, _⟩
    exact iff_of_true ⟨u, o, hstep⟩ trivial
  . intros
    trivial

theorem filter_routed (currents : List UInt32)
    : ((routed source targets last currents).filter (fun r => r.1 = source)).map (fun r => some r.2)
        = List.replicate (currents.count source) (some source) := by
  induction currents generalizing last with
  | nil => rfl
  | cons c rest ih =>
    rw [routed_cons]
    by_cases hc : c = source
    . subst hc
      rw [List.filter_cons_of_pos (by simp), List.map_cons, ih, List.count_cons_self, List.replicate_succ,
        if_pos rfl]
    . rw [List.filter_cons_of_neg (by simpa using hc), ih, List.count_cons_of_ne hc]

theorem mem_routed {r : UInt32 × UInt32} {currents : List UInt32}
    : r ∈ routed source targets last currents
        ↔ ∃ k c, currents[k]? = some c
          ∧ r = (c, if c = source then source
            else targets.getD ((nextTargetIndex targets)^[k + 1] last).toNat 0) := by
  rw [routed, List.mem_iff_getElem?]
  apply exists_congr
  intro k
  rw [List.getElem?_mapIdx, Option.map_eq_some_iff]
  apply exists_congr
  intro c
  rw [eq_comm (a := r)]

theorem getD_nextTargetIndex (h : targets ≠ []) (k : Nat) (last : UInt32)
    : targets[((nextTargetIndex targets)^[k + 1] last).toNat]?
        = some (targets.getD ((nextTargetIndex targets)^[k + 1] last).toNat 0) := by
  have hlt : ((nextTargetIndex targets)^[k + 1] last).toNat < targets.length := by
    rw [Function.iterate_succ_apply']
    exact nextTargetIndex_lt h _
  rw [List.getElem?_eq_getElem hlt, List.getD_eq_getElem _ _ hlt]

theorem serves_routed_iff (h : targets ≠ []) (currents : List UInt32)
    : Serves source targets (routed source targets last currents)
        ↔ SourceOnly source targets last currents := by
  -- All packets from the source go to the source itself, so that a fair dealing may use its own slots only.
  have hfair := Fair.exists_slots_iff (x := source) h (currents.count source)
  have hfilter : ((routed source targets last currents).filter (fun r => r.1 = source)).map (fun r => some r.2)
      = List.replicate (currents.count source) (some source) := filter_routed currents
  rw [← hfilter] at hfair
  constructor
  . intro hserves
    rcases hfair.mp hserves.fair with hall | hle
    . exact .inl hall
    . refine .inr ⟨hle, ?_⟩
      intro k c hk hc
      have hback := hserves.backward _ (mem_routed.mpr ⟨k, c, hk, rfl⟩) hc
      rw [if_neg hc] at hback
      rw [getD_nextTargetIndex h]
      exact congrArg some hback
  . intro honly
    refine ⟨?_, ?_, hfair.mpr ?_⟩
    . intro r hr hsource
      rcases mem_routed.mp hr with ⟨k, c, hk, rfl⟩
      dsimp only at hsource ⊢
      rw [if_pos hsource]
      rcases honly with hall | ⟨hle, _⟩
      . rcases List.exists_mem_of_ne_nil targets h with ⟨y, hy⟩
        exact hall y hy ▸ hy
      . have hpos : 0 < currents.count source := by
          rw [List.count_pos_iff, ← hsource]
          exact List.mem_of_getElem? hk
        rw [← List.count_pos_iff]
        omega
    . intro r hr hne
      rcases mem_routed.mp hr with ⟨k, c, hk, rfl⟩
      dsimp only at hne ⊢
      rw [if_neg hne]
      have hget := getD_nextTargetIndex h k last
      rcases honly with hall | ⟨_, hback⟩
      . exact hall _ (List.mem_of_getElem? hget)
      . rw [hback k c hk hne, Option.some.injEq] at hget
        exact hget.symm
    . exact honly.imp id And.left

theorem sourceOnly_iff_of_not_mem (h : targets ≠ []) (hsource : source ∉ targets) (currents : List UInt32)
    : SourceOnly source targets last currents ↔ currents = [] := by
  have hzero := List.count_eq_zero_of_not_mem hsource
  constructor
  . rintro (hall | ⟨hle, hback⟩)
    . rcases List.exists_mem_of_ne_nil targets h with ⟨y, hy⟩
      exact absurd (hall y hy ▸ hy) hsource
    . cases currents with
      | nil => rfl
      | cons c rest =>
        have hne : c ≠ source := by
          rintro rfl
          rw [List.count_cons_self, hzero] at hle
          omega
        exact absurd (List.mem_of_getElem? (hback 0 c rfl hne)) hsource
  . rintro rfl
    exact .inr ⟨Nat.zero_le _, by simp⟩

/--
A run of frames does what the load balancer is for exactly when something makes up for the exchanged branches.
-/
theorem loadBalance_serves_iff (s : LbState) (hne : s.rt.swIfTarget ≠ []) (acts : List LbAct)
    : ∃ tr t, LbRun s tr t ∧ tr.map Edge.act = acts
        ∧ (Serves s.rt.swIfIndexSource s.rt.swIfTarget (routes tr)
          ↔ SourceOnly s.rt.swIfIndexSource s.rt.swIfTarget s.rt.lastTargetIndex (currents tr)) := by
  rcases exists_lbRun s hne acts with ⟨tr, t, hrun, hacts⟩
  refine ⟨tr, t, hrun, hacts, ?_⟩
  rw [(dealt_of_run hrun hne).routes]
  exact serves_routed_iff hne (currents tr)

/--
A source with one target, and flows that all come from the source.
-/
def lbPair : LbState where
  rt := { swIfIndexSource := 1, swIfTarget := [2], lastTargetIndex := ~~~0 }
  flows := fun _ =>
    { cachedNextNode := .drop, offloaded := 0, swIfIndexDst := 0, swIfIndexRev := 0, swIfIndexCurrent := 1 }

/--
A source that is one of two targets, the second.
-/
def lbMixed : LbState :=
  { lbPair with rt := { lbPair.rt with swIfTarget := [2, 1] } }

/-- A packet of the source goes to the slot of the source, and the answer comes when the index is at it. -/
theorem loadBalance_serves_iff_mixed
    : ∃ tr t, LbRun lbMixed tr t
        ∧ tr.map Edge.act = [.frame [⟨0, 0, 0⟩], .current 0 2, .frame [⟨0, 0, 0⟩]]
        ∧ routes tr = [(1, 1), (2, 1)] ∧ Serves 1 [2, 1] (routes tr) := by
  have hcheck : lbMachine.check lbMixed [.frame [⟨0, 0, 0⟩], .current 0 2, .frame [⟨0, 0, 0⟩]]
      (fun tr _ => currents tr = [1, 2] ∧ routes tr = [(1, 1), (2, 1)]) = true := by
    decide
  rcases Machine.exists_run_of_check hcheck with ⟨tr, t, hrun, hacts, htest⟩
  rcases of_decide_eq_true htest with ⟨hcur, hroutes⟩
  rcases loadBalance_serves_iff lbMixed (by decide) (tr.map Edge.act) with ⟨tr', t', hrun', hacts', hiff⟩
  rcases hrun.unique_of_acts hrun' hacts'.symm with ⟨rfl, rfl⟩
  refine ⟨tr, t, hrun, hacts, hroutes, hiff.mpr (.inr ?_)⟩
  rw [hcur]
  refine ⟨by decide, ?_⟩
  intro k c hk hne
  rcases k with _ | _ | k
  . cases hk
    exact absurd rfl hne
  . decide
  . cases hk

/-- A packet of the source goes back to the source. -/
theorem not_loadBalance_serves
    : ¬ ∀ (s : LbState) (tr : List LbStep) (t : LbState), s.rt.swIfTarget ≠ [] → LbRun s tr t
        → (∀ c ∈ currents tr, c = s.rt.swIfIndexSource ∨ c ∈ s.rt.swIfTarget)
        → Serves s.rt.swIfIndexSource s.rt.swIfTarget (routes tr) := by
  intro hall
  have hcheck : lbMachine.check lbPair [.frame [⟨0, 0, 0⟩]]
      (fun tr _ => currents tr = [1] ∧ routes tr = [(1, 1)]) = true := by
    decide
  rcases Machine.exists_run_of_check hcheck with ⟨tr, t, hrun, _, htest⟩
  rcases of_decide_eq_true htest with ⟨hcur, hrt⟩
  have hserves := hall lbPair tr t (by decide) hrun (by simp [hcur, lbPair])
  rw [hrt] at hserves
  have := hserves.forward (1, 1) (by simp) rfl
  simp [lbPair] at this

end Flowtable
