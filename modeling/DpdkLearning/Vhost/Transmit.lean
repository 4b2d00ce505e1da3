import DpdkLearning.Vhost.Lemmas.Guest

/-!
This module contains which descriptors `vhost_tx` takes from the guest: the heads that were published, in
their order, as long as it is not asked for more than there are.
-/

open Lib

namespace Vhost

/--
How many packets a call of `vhost_tx` gets memory for.
-/
def TxCall.taken (c : TxCall) : Nat :=
  packetsFor c.newMbuf 0 c.npkts.toNat

/--
A call takes no more packets than `desc_idx` has place for, and than the guest has published and did not
get back yet.
-/
def takesPublished (s : QueueSys) : QueueAct TxCall → Bool
  | .publish _ => true
  | .call c =>
    decide (c.npkts.toNat ≤ maxPktBurst)
      && decide (s.consumed.length + c.taken ≤ s.published.length)

/--
The call returns with one packet for each head that it gives back, copied from this head's descriptor.
-/
def Copied (e : QueueStep TxCall) : Prop :=
  ∀ result, e.out = some result → ∃ burst, result = .ok burst
    ∧ burst.pkts.map .ok = (e.post.consumed.drop e.pre.consumed.length).map
        (copyDescToMbuf e.pre.dev (e.pre.dev.queue vhostTxQidx) e.pre.mem vhostNewMbuf)

/--
The heads that have been consumed are the first ones that were published.
-/
structure ConsumesPublished (tr : List (QueueStep TxCall)) (s : QueueSys) : Prop where
  inOrder : s.consumed <+: s.published
  copied : ∀ e ∈ tr, Copied e

variable {start : Nat} {s s' : QueueSys} {c : TxCall} {tr : List (QueueStep TxCall)}

theorem vhostTx_overflow {dev : VhostDev} {mem : SharedMem} {newMbuf : Nat → Bool} {npkts : UInt16}
    (h : Ready dev (dev.queue vhostTxQidx)) (hburst : maxPktBurst < npkts.toNat)
    : vhostTx newMbuf dev mem npkts = .error .burstOverflow := by
  have hmem := h.mem.ne_none
  unfold vhostTx
  dsimp only
  rw [if_neg (by simp [hmem, h.desc, h.avail, h.used]), if_neg (fun hz => h.num.ne_zero hz.2),
    if_pos hburst]

theorem consumed_of_vhostTx (h : InStep vhostTxQidx start s)
    (hnum : c.npkts.toNat ≤ (s.dev.queue vhostTxQidx).num.toNat) (hburst : c.npkts.toNat ≤ maxPktBurst)
    : ∃ burst, vhostTx c.newMbuf s.dev s.mem c.npkts = .ok burst
        ∧ givenBack (s.dev.queue vhostTxQidx) burst.vq burst.mem
            = availHeads (s.dev.queue vhostTxQidx) s.mem c.taken
        ∧ burst.pkts.map .ok = (availHeads (s.dev.queue vhostTxQidx) s.mem c.taken).map
            (copyDescToMbuf s.dev (s.dev.queue vhostTxQidx) s.mem vhostNewMbuf) := by
  rcases vhostTx_ok c.newMbuf h.ready s.mem hburst with ⟨burst, hcall, hput, hpkts⟩
  refine ⟨burst, hcall, ?_, hpkts⟩
  have htaken : c.taken ≤ c.npkts.toNat := packetsFor_le _ _ _
  have hlt := c.npkts.toNat_lt
  rw [givenBack_of_put hput]
  . rw [List.map_map]
    simp [Function.comp_def, TxCall.taken]
  . rw [List.length_map, length_availHeads, ← TxCall.taken]
    omega
  . rw [List.length_map, length_availHeads, ← TxCall.taken]
    omega

/-- A call takes the next heads in turn exactly when they are published. -/
theorem consumesPublished_of_call {act : QueueAct TxCall} {out : Option (Except Misuse Burst)}
    (h : InStep vhostTxQidx start s) (hpast : ConsumesPublished tr s)
    (hstep : txMachine.step s act = .ok (s', out))
    : ConsumesPublished (tr ++ [⟨s, act, out, s'⟩]) s' ↔ takesPublished s act = true := by
  have hcopied : ∀ {e}, Copied e → ∀ e' ∈ tr ++ [e], Copied e' := by
    intro e he e' hmem
    rw [List.mem_append, List.mem_singleton] at hmem
    rcases hmem with hmem | rfl
    . exact hpast.copied e' hmem
    . exact he
  rw [txMachine_step] at hstep
  rcases queueStep_cases hstep with ⟨head, rfl, rfl, _, rfl⟩ | ⟨c, rfl, rfl, hallowed, rfl⟩
  . simp only [takesPublished, iff_true]
    refine ⟨hpast.inOrder.trans (List.prefix_append _ _), hcopied ?_⟩
    intro result hresult
    contradiction
  . rw [decide_eq_true_eq] at hallowed
    simp only [takesPublished, Bool.and_eq_true, decide_eq_true_eq]
    by_cases hburst : c.npkts.toNat ≤ maxPktBurst
    . rcases consumed_of_vhostTx h hallowed hburst with ⟨burst, hcall, hgiven, hpkts⟩
      simp only [hcall, QueueSys.afterCall, hgiven]
      constructor
      . intro hafter
        have hlen := hafter.inOrder.length_le
        rw [List.length_append, length_availHeads] at hlen
        exact ⟨hburst, hlen⟩
      . rintro ⟨_, hle⟩
        refine ⟨?_, hcopied ?_⟩
        . rw [h.availHeads hle]
          rcases hpast.inOrder with ⟨rest, hrest⟩
          rw [← hrest, List.drop_left]
          exact (List.prefix_append_right_inj _).mpr (List.take_prefix _ _)
        . intro result hresult
          cases hresult
          refine ⟨burst, rfl, ?_⟩
          dsimp only
          rw [List.drop_left, hpkts]
    -- Asked for more than a burst, the call runs over the end of `desc_idx`.
    . have hcall : vhostTx c.newMbuf s.dev s.mem c.npkts = .error .burstOverflow :=
        vhostTx_overflow h.ready (by omega)
      constructor
      . intro hafter
        rcases hafter.copied _ (List.mem_append_right _ (List.mem_singleton.mpr rfl)) _ rfl
          with ⟨burst, hok, _⟩
        rw [hcall] at hok
        contradiction
      . rintro ⟨hle, _⟩
        exact absurd hle hburst

theorem put_of_vhostTx (dev : VhostDev) (mem : SharedMem) (c : TxCall) (burst : Burst)
    (h : Ready dev (dev.queue vhostTxQidx)) (hcall : vhostTx c.newMbuf dev mem c.npkts = .ok burst)
    : ∃ elems, elems.length < 2 ^ 32 ∧ Put (dev.queue vhostTxQidx) mem elems burst := by
  by_cases hburst : c.npkts.toNat ≤ maxPktBurst
  . rcases vhostTx_ok c.newMbuf h mem hburst with ⟨burst', hcall', hput, _⟩
    rw [hcall] at hcall'
    cases hcall'
    refine ⟨_, ?_, hput⟩
    have htaken : packetsFor c.newMbuf 0 c.npkts.toNat ≤ c.npkts.toNat := packetsFor_le _ _ _
    have hlt := c.npkts.toNat_lt
    rw [List.length_map, length_availHeads]
    omega
  . rw [vhostTx_overflow h (by omega)] at hcall
    contradiction

theorem inStep_of_txRun (h0 : Starts vhostTxQidx s) (h : Machine.Run txMachine s tr s')
    : InStep vhostTxQidx (s.dev.queue vhostTxQidx).lastUsedIdx.toNat s' := by
  apply h.invariant h0.inStep
  intro t act out u hI hstep
  rw [txMachine_step] at hstep
  exact inStep_of_step put_of_vhostTx hI hstep

/--
Over a run, `vhost_tx` has consumed a prefix of what the guest published all along exactly when no call
took more than was published.
-/
theorem consumesPublished_iff (h0 : Starts vhostTxQidx s) (h : Machine.Run txMachine s tr s')
    : (∀ tr' t, tr' <+: tr → Machine.Run txMachine s tr' t → ConsumesPublished tr' t)
        ↔ ∀ e ∈ tr, takesPublished e.pre e.act = true := by
  apply h.forall_prefix_iff_guard (C := fun t act => takesPublished t act = true)
  . refine ⟨?_, by simp⟩
    rw [h0.consumed]
    exact List.nil_prefix
  . intro tr t act out u hrun hpast hstep
    exact consumesPublished_of_call (inStep_of_txRun h0 hrun) hpast hstep

/-- Two packets over the wrap of `avail->idx`. -/
theorem consumesPublished_iff_wrap
    : ∃ s tr s', Starts vhostTxQidx s ∧ Machine.Run txMachine s tr s'
        ∧ s.dev.queue vhostTxQidx = .fourSlots 65535 ∧ s'.consumed = [2, 3]
        ∧ ∀ tr' t, tr' <+: tr → Machine.Run txMachine s tr' t → ConsumesPublished tr' t := by
  have hcheck : txMachine.check (.unused 65535)
      [.publish 2, .publish 3, .publish 1, .call ⟨fun _ => true, 2⟩]
      (fun tr t => tr.all (fun e => takesPublished e.pre e.act) && t.consumed == [2, 3]) = true := by
    decide +kernel
  rcases Machine.exists_run_of_check hcheck with ⟨tr, t, hrun, _, htest⟩
  rw [Bool.and_eq_true, List.all_eq_true, beq_iff_eq] at htest
  exact ⟨_, tr, t, starts_unused 65535, hrun, rfl, htest.2,
    (consumesPublished_iff (starts_unused 65535) hrun).mpr htest.1⟩

/-- From a ring that the guest has put nothing into, `vhost_tx` takes descriptor 0. -/
theorem not_consumesPublished
    : ∃ s tr s', Starts vhostTxQidx s ∧ Machine.Run txMachine s tr s'
        ∧ s'.published = [] ∧ s'.consumed = [0] ∧ ¬ConsumesPublished tr s' := by
  have hcheck : txMachine.check (.unused 0) [.call ⟨fun _ => true, 1⟩]
      (fun _ t => t.published == [] && t.consumed == [0]) = true := by
    decide +kernel
  rcases Machine.exists_run_of_check hcheck with ⟨tr, t, hrun, _, htest⟩
  rw [Bool.and_eq_true, beq_iff_eq, beq_iff_eq] at htest
  refine ⟨_, tr, t, starts_unused 0, hrun, htest.1, htest.2, ?_⟩
  intro hall
  have hlen := hall.inOrder.length_le
  rw [htest.1, htest.2] at hlen
  contradiction

end Vhost
