import DpdkLearning.Vhost.Lemmas.Backend
import DpdkLearning.Vhost.Lemmas.Queue

/-!
This module contains what the backend relies on when it handles a message or polls a queue: which messages
must have come before, and which values the peer must not send.
-/

open Lib

namespace Vhost

/--
What the handler needs to get through a message.
-/
def Backend.handles (b : Backend) (env : Env) (msg : Received) : Bool :=
  match Request.ofCode msg.request.toNat with
  | .getFeatures | .setFeatures | .other => true
  | .setOwner => env.malloc
  | .setMemTable =>
    b.virtiodev.any (fun dev => (dev.mem.isSome || env.malloc)
      && decide (msg.toMsg.memory.nregions.toNat ≤ virtioMaxRegion))
  | .setVringNum | .setVringBase =>
    b.virtiodev.isSome && decide (msg.stateIndex.toNat < maxMultiQueue)
  | .setVringAddr =>
    decide (msg.stateIndex.toNat < maxMultiQueue)
      && b.virtiodev.any (fun dev => returns (dev.gvaToHva msg.addrDesc) (fun desc => decide (desc ≠ 0)))
  | .setVringKick | .setVringCall => b.virtiodev.isSome

def polledTx (dev : VhostDev) : Bool :=
  let vq := dev.queue vhostTxQidx
  decide (dev.mem = none ∨ vq.desc = 0 ∨ vq.avail = 0 ∨ vq.used = 0 ∨ vq.num ≠ 0)

def polledRx (dev : VhostDev) (mem : SharedMem) : Bool :=
  let vq := dev.queue vhostRxQidx
  decide (vq.avail ≠ 0 ∧ ((mem.avail vq.avail).idx.toUInt32 = vq.lastUsedIdx ∨ vq.used ≠ 0))

/--
The step finds what it needs: the payload fits the union, the device and its memory table are there,
the indices and the number of regions are in bounds, no address that is looked at is unmapped, and a queue
that is polled has its rings and a size.
-/
def Backend.provides (b : Backend) : Backend.Act → Bool
  | .message env msg => decide (msg.written.length ≤ unionSize) && b.handles env msg
  | .guest _ => true
  | .vhostTx _ => b.virtiodev.all polledTx
  | .vhostRx _ => b.virtiodev.all (fun dev => polledRx dev b.mem)

/--
The memory table can be scanned, and a queue with an avail ring has its descriptors.
-/
structure DevSafe (dev : VhostDev) : Prop where
  regions : ∀ mem, dev.mem = some mem → mem.nregions.toNat ≤ virtioMaxRegion
  wired : ∀ qidx, (dev.queue qidx).avail ≠ 0 → (dev.queue qidx).desc ≠ 0 ∧ dev.mem ≠ none

def BackendSafe (b : Backend) : Prop :=
  ∀ dev, b.virtiodev = some dev → DevSafe dev

variable {env : Env} {b b' : Backend} {dev : VhostDev} {vq vq' : Virtqueue} {mem mem' : SharedMem}
  {qidx : Fin maxMultiQueue}

theorem DevSafe.scannable (h : DevSafe dev) (hmem : dev.mem ≠ none) : Scannable dev := by
  rcases Option.ne_none_iff_exists'.mp hmem with ⟨mem, hmem⟩
  exact ⟨mem, hmem, h.regions mem hmem⟩

theorem DevSafe.setQueue (h : DevSafe dev) (hvq : vq.avail ≠ 0 → vq.desc ≠ 0 ∧ dev.mem ≠ none)
    : DevSafe (dev.setQueue qidx vq) where
  regions := h.regions
  wired := by
    intro qidx' havail
    by_cases heq : qidx = qidx'
    . subst heq
      rw [queue_setQueue] at havail ⊢
      exact hvq havail
    . rw [queue_setQueue_ne heq] at havail ⊢
      exact h.wired qidx' havail

section Calls

theorem vhostTxLoop_queue {newMbuf : Nat → Bool} {i : Nat} {descIdxs : List UInt16} {pkts : List Mbuf}
    (h : vhostTxLoop newMbuf dev vq mem i descIdxs = .ok (pkts, vq', mem'))
    : ∃ last, vq' = { vq with lastUsedIdx := last } := by
  induction descIdxs generalizing vq mem i pkts with
  | nil =>
    cases h
    exact ⟨_, rfl⟩
  | cons d ds ih =>
    unfold vhostTxLoop at h
    split at h
    . split at h
      . contradiction
      . dsimp only at h
        split at h
        . contradiction
        . next hloop =>
          cases h
          rcases ih hloop with ⟨last, hlast⟩
          exact ⟨last, hlast⟩
    . cases h
      exact ⟨_, rfl⟩

theorem vhostRxLoop_queue {pkts : Nat → Mbuf} {i : Nat} {descIdxs : List UInt32}
    (h : vhostRxLoop pkts dev vq mem i descIdxs = .ok (vq', mem'))
    : ∃ last, vq' = { vq with lastUsedIdx := last } := by
  induction descIdxs generalizing vq mem i with
  | nil =>
    cases h
    exact ⟨_, rfl⟩
  | cons d ds ih =>
    unfold vhostRxLoop at h
    split at h
    . contradiction
    . dsimp only at h
      split at h
      . contradiction
      . rcases ih h with ⟨last, hlast⟩
        exact ⟨last, hlast⟩

theorem vhostTx_queue {newMbuf : Nat → Bool} {npkts : UInt16} {burst : Burst}
    (h : vhostTx newMbuf dev mem npkts = .ok burst)
    : ∃ last, burst.vq = { dev.queue vhostTxQidx with lastUsedIdx := last } := by
  simp only [vhostTx] at h
  split at h
  . cases h
    exact ⟨_, rfl⟩
  . split at h
    . contradiction
    . split at h
      . contradiction
      . split at h
        . contradiction
        . next hloop =>
          cases h
          exact vhostTxLoop_queue hloop

theorem vhostRx_queue {pkts : Nat → Mbuf} {npkts : Int} {burst : Burst}
    (h : vhostRx dev mem qidx pkts npkts = .ok burst)
    : ∃ last, burst.vq = { dev.queue qidx with lastUsedIdx := last } := by
  simp only [vhostRx] at h
  split at h
  . contradiction
  . split at h
    . cases h
      exact ⟨_, rfl⟩
    . split at h
      . contradiction
      . next hloop =>
        split at h
        . contradiction
        . cases h
          exact vhostRxLoop_queue hloop

theorem vhostTxLoop_returns (h : Scannable dev) (newMbuf : Nat → Bool) (vq : Virtqueue) (mem : SharedMem)
    (i : Nat) (descIdxs : List UInt16) : ∃ r, vhostTxLoop newMbuf dev vq mem i descIdxs = .ok r := by
  induction descIdxs generalizing vq mem i with
  | nil => exact ⟨_, rfl⟩
  | cons d ds ih =>
    unfold vhostTxLoop
    split
    . rcases copyDescToMbuf_ok h vq mem vhostNewMbuf d with ⟨mbuf, hmbuf⟩
      rw [hmbuf]
      dsimp only
      rcases ih { vq with lastUsedIdx := vq.lastUsedIdx + 1 }
        (mem.setUsed vq.used (vq.lastUsedIdx % vq.num).toNat ⟨d.toUInt32, 0⟩) (i + 1) with ⟨r, hr⟩
      rw [hr]
      exact ⟨_, rfl⟩
    . exact ⟨_, rfl⟩

theorem vhostRxLoop_returns (h : Scannable dev) (pkts : Nat → Mbuf) (hdesc : vq.desc ≠ 0)
    (hused : vq.used ≠ 0) (mem : SharedMem) (i : Nat) (descIdxs : List UInt32)
    : ∃ r, vhostRxLoop pkts dev vq mem i descIdxs = .ok r := by
  induction descIdxs generalizing vq mem i with
  | nil => exact ⟨_, rfl⟩
  | cons d ds ih =>
    unfold vhostRxLoop
    rcases copyMbufToDesc_ok h hdesc mem (pkts i) d with ⟨mem', hmem', _⟩
    rw [hmem']
    dsimp only
    rw [if_neg hused]
    exact @ih { vq with lastUsedIdx := vq.lastUsedIdx + 1 } hdesc hused _ _

theorem vhostTx_returns_iff (h : DevSafe dev) (newMbuf : Nat → Bool) (mem : SharedMem)
    : (∃ burst, vhostTx newMbuf dev mem 1 = .ok burst) ↔ polledTx dev = true := by
  simp only [vhostTx, polledTx, decide_eq_true_eq]
  generalize dev.queue vhostTxQidx = vq
  by_cases hset : dev.mem = none ∨ vq.desc = 0 ∨ vq.avail = 0 ∨ vq.used = 0
  . rw [if_pos hset]
    simp
    tauto
  . rw [if_neg hset]
    simp only [not_or] at hset
    by_cases hnum : vq.num = 0
    . simp [hnum, hset]
    . rw [if_neg (fun hzero => hnum hzero.2), if_neg (by decide)]
      rcases vhostTxLoop_returns (h.scannable hset.1) newMbuf vq mem 0 ((List.range (1 : UInt16).toNat).map
        (fun i => (mem.avail vq.avail).ring ((vq.lastUsedIdx + i.toUInt32) % vq.num).toNat))
        with ⟨⟨pkts, vq', mem'⟩, hloop⟩
      rw [hloop]
      simp [hnum]

theorem vhostRxNavail_eq_zero_iff
    : vhostRxNavail vq mem = 0 ↔ (mem.avail vq.avail).idx.toUInt32 = vq.lastUsedIdx := by
  unfold vhostRxNavail
  rw [← Int32.toInt_zero, Int32.toInt_inj]
  constructor
  . intro h
    have hdiff := congrArg Int32.toUInt32 h
    rw [UInt32.toUInt32_toInt32] at hdiff
    rw [UInt32.sub_eq_iff_eq_add.mp hdiff]
    exact UInt32.zero_add _
  . intro h
    rw [h, UInt32.sub_self]
    rfl

theorem vhostRx_returns_iff (h : DevSafe dev) (pkts : Nat → Mbuf) (mem : SharedMem)
    : (∃ burst, vhostRx dev mem vhostRxQidx pkts 1 = .ok burst) ↔ polledRx dev mem = true := by
  have hwired := h.wired vhostRxQidx
  simp only [vhostRx, polledRx, decide_eq_true_eq]
  generalize dev.queue vhostRxQidx = vq at hwired ⊢
  by_cases havail : vq.avail = 0
  . simp [havail]
  . rcases hwired havail with ⟨hdesc, hmem⟩
    have hzero : min (min 1 (vhostRxNavail vq mem)) maxPktBurst = 0
        ↔ (mem.avail vq.avail).idx.toUInt32 = vq.lastUsedIdx := by
      rw [← vhostRxNavail_eq_zero_iff, maxPktBurst]
      omega
    rw [if_neg havail]
    by_cases hidx : (mem.avail vq.avail).idx.toUInt32 = vq.lastUsedIdx
    . rw [if_pos (hzero.mpr hidx)]
      simp [havail, hidx]
    . rw [if_neg (fun heq => hidx (hzero.mp heq))]
      constructor
      . rintro ⟨burst, hburst⟩
        split at hburst
        . contradiction
        . next hloop =>
          rcases vhostRxLoop_queue hloop with ⟨last, rfl⟩
          split at hburst
          . contradiction
          . next hused => exact ⟨havail, .inr hused⟩
      . rintro ⟨_, heq | hused⟩
        . exact absurd heq hidx
        . rcases vhostRxLoop_returns (h.scannable hmem) pkts hdesc hused mem 0
            ((List.range (min (min 1 (vhostRxNavail vq mem)) maxPktBurst).toNat).map (fun i =>
              ((mem.avail vq.avail).ring ((vq.lastUsedIdx + i.toUInt32) &&& (vq.num - 1)).toNat).toUInt32))
            with ⟨⟨vq', mem'⟩, hloop⟩
          rcases vhostRxLoop_queue hloop with ⟨last, rfl⟩
          rw [hloop]
          dsimp only
          rw [if_neg hused]
          exact ⟨_, rfl⟩

end Calls

section Messages

variable {msg : Received}

theorem withDev_returns_iff {α : Type} {f : VhostDev → Except Misuse α}
    : (∃ r, b.withDev f = .ok r) ↔ ∃ dev, b.virtiodev = some dev ∧ ∃ r, f dev = .ok r := by
  unfold Backend.withDev
  cases b.virtiodev <;> simp

theorem withQueue_returns_iff {α : Type} {index : Nat} {f : VhostDev → Fin maxMultiQueue → Except Misuse α}
    : (∃ r, b.withQueue index f = .ok r)
        ↔ ∃ dev, b.virtiodev = some dev ∧ ∃ h : index < maxMultiQueue, ∃ r, f dev ⟨index, h⟩ = .ok r := by
  unfold Backend.withQueue
  rw [withDev_returns_iff]
  constructor
  . rintro ⟨dev, hdev, r, hr⟩
    split at hr
    . next hlt => exact ⟨dev, hdev, hlt, r, hr⟩
    . contradiction
  . rintro ⟨dev, hdev, hlt, r, hr⟩
    exact ⟨dev, hdev, r, by rw [dif_pos hlt, hr]⟩

theorem installRegions_overflow {msg : VhostUserMsg} {table : VhostUserMem} {i n : Nat}
    (hi : i ≤ virtioMaxRegion) (hn : virtioMaxRegion < i + n)
    : installRegions env msg table i n = .error .outOfBounds := by
  induction n generalizing i table with
  | zero => omega
  | succ n ih =>
    unfold installRegions
    split
    . next hlt => exact ih hlt (by omega)
    . rfl

theorem vhostUserSetMemTable_returns_iff {dev : VirtioDev} {msg : VhostUserMsg}
    : (∃ r, vhostUserSetMemTable env dev msg = .ok r)
        ↔ (dev.mem.isSome ∨ env.malloc = true) ∧ msg.memory.nregions.toNat ≤ virtioMaxRegion := by
  constructor
  . rintro ⟨r, hr⟩
    unfold vhostUserSetMemTable at hr
    have hfit : ∀ {table r}, installRegions env msg table 0 msg.memory.nregions.toNat = .ok r
        → msg.memory.nregions.toNat ≤ virtioMaxRegion := by
      intro table r hinstall
      apply Nat.le_of_not_lt
      intro hlt
      rw [installRegions_overflow (Nat.zero_le _) (by omega)] at hinstall
      contradiction
    cases hold : dev.mem with
    | some mem =>
      rw [hold] at hr
      rcases bind_eq_ok hr with ⟨_, _, hr⟩
      rcases bind_eq_ok hr with ⟨table, hinstall, _⟩
      exact ⟨.inl rfl, hfit hinstall⟩
    | none =>
      rw [hold] at hr
      cases hmalloc : env.malloc with
      | false =>
        rw [hmalloc] at hr
        contradiction
      | true =>
        rw [hmalloc] at hr
        rcases bind_eq_ok hr with ⟨_, _, hr⟩
        rcases bind_eq_ok hr with ⟨table, hinstall, _⟩
        exact ⟨.inr rfl, hfit hinstall⟩
  . rintro ⟨hmem, hcount⟩
    rcases vhostUserSetMemTable_installed hcount hmem with ⟨mem, hset, _⟩
    exact ⟨_, hset⟩

theorem handler_returns_iff (h : BackendSafe b)
    : (∃ r, b.vhostUserMsgHandler env msg = .ok r) ↔ b.handles env msg = true := by
  unfold Backend.vhostUserMsgHandler Backend.handles
  cases Request.ofCode msg.request.toNat with
  | getFeatures | setFeatures | other => simp
  | setOwner =>
    dsimp only
    cases env.malloc <;> simp
  | setMemTable =>
    dsimp only
    rw [withDev_returns_iff, Option.any_eq_true]
    apply exists_congr
    intro dev
    apply and_congr_right
    intro _
    rw [Bool.and_eq_true, Bool.or_eq_true, decide_eq_true_eq, ← vhostUserSetMemTable_returns_iff]
    cases vhostUserSetMemTable env dev.toVirtioDev msg.toMsg <;> simp
  | setVringNum | setVringBase =>
    dsimp only
    rw [withQueue_returns_iff, Bool.and_eq_true, Option.isSome_iff_exists, decide_eq_true_eq]
    simp
  -- The mask on the index leaves nothing out of bounds.
  | setVringKick | setVringCall =>
    dsimp only
    rw [withQueue_returns_iff, Option.isSome_iff_exists]
    have hindex : (msg.num &&& 0xff).toNat < maxMultiQueue := by
      rw [UInt64.toNat_and]
      exact Nat.lt_of_le_of_lt Nat.and_le_right (by decide)
    simp only [exists_prop, hindex, Except.ok.injEq, exists_eq', and_true]
  | setVringAddr =>
    dsimp only
    rw [withQueue_returns_iff, Bool.and_eq_true, Option.any_eq_true, decide_eq_true_eq]
    constructor
    . rintro ⟨dev, hdev, hindex, r, hr⟩
      rcases bind_eq_ok hr with ⟨desc, hdesc, hr⟩
      rcases bind_eq_ok hr with ⟨avail, _, hr⟩
      rcases bind_eq_ok hr with ⟨used, _, hr⟩
      refine ⟨hindex, dev, hdev, ?_⟩
      rw [hdesc, returns, decide_eq_true_eq]
      intro hzero
      rw [if_pos hzero] at hr
      contradiction
    . rintro ⟨hindex, dev, hdev, htest⟩
      rcases exists_of_returns htest with ⟨desc, hdesc, hne⟩
      rw [decide_eq_true_eq] at hne
      have hscan : Scannable dev := by
        apply (h dev hdev).scannable
        intro hnone
        rw [VhostDev.gvaToHva, Vhost.gvaToHva, hnone] at hdesc
        contradiction
      rcases gvaToHva_ok hscan msg.addrAvail with ⟨avail, havail⟩
      rcases gvaToHva_ok hscan msg.addrUsed with ⟨used, hused⟩
      refine ⟨dev, hdev, hindex, ?_⟩
      rw [hdesc, havail, hused]
      exact ⟨_, if_neg hne⟩

end Messages

theorem devSafe_zero : DevSafe virtioDevZero where
  regions := nofun
  wired := by
    intro qidx h
    simp [VhostDev.queue, virtioDevZero, virtqueueZero] at h

theorem backendSafe_of_step {act : Backend.Act} {out : Out} (h : BackendSafe b)
    (hstep : backendMachine.step b act = .ok (b', out)) : BackendSafe b' := by
  -- The calls on the queues move `last_used_idx` only.
  have hkeep : ∀ {dev qidx last}, b.virtiodev = some dev
      → DevSafe (dev.setQueue qidx { dev.queue qidx with lastUsedIdx := last }) := by
    intro dev qidx last hdev
    exact (h dev hdev).setQueue ((h dev hdev).wired qidx)
  intro dev' hdev'
  cases backendStepped_of_step hstep with
  | guest | waited => exact h dev' hdev'
  | tx hdev hcall =>
    rcases vhostTx_queue hcall with ⟨last, hlast⟩
    cases hdev'
    rw [hlast]
    exact hkeep hdev
  | rx hdev hcall =>
    rcases vhostRx_queue hcall with ⟨last, hlast⟩
    cases hdev'
    rw [hlast]
    exact hkeep hdev
  | @message env msg _ _ hhandled =>
    generalize Request.ofCode msg.request.toNat = request at hhandled
    cases hhandled with
    | getFeatures | setFeatures | other => exact h dev' hdev'
    | setOwner =>
      cases hdev'
      exact devSafe_zero
    | @setMemTable dev dev1 ret hdev hset =>
      cases hdev'
      have hreturns := vhostUserSetMemTable_returns_iff.mp ⟨_, hset⟩
      rcases vhostUserSetMemTable_installed hreturns.2 hreturns.1 with ⟨mem, hset1, hinstalled⟩
      rw [hset] at hset1
      cases hset1
      constructor
      . intro mem' hmem'
        cases hmem'
        rw [hinstalled.nregions]
        exact hinstalled.count
      . intro qidx havail
        exact ⟨((h dev hdev).wired qidx havail).1, Option.some_ne_none _⟩
    | setVringAddr hdev _ hdesc hne =>
      cases hdev'
      apply (h _ hdev).setQueue
      intro _
      refine ⟨hne, ?_⟩
      intro hnone
      rw [VhostDev.gvaToHva, Vhost.gvaToHva, hnone] at hdesc
      contradiction
    | setVring _ hdev hvq =>
      cases hdev'
      apply (h _ hdev).setQueue
      rw [hvq.1, hvq.2]
      exact (h _ hdev).wired _

theorem backendSafe_of_run {mem : SharedMem} {tr : List BackendStep} (h : BackendRun (.init mem) tr b)
    : BackendSafe b :=
  h.invariant (I := BackendSafe) nofun backendSafe_of_step

/-- A step of the backend misuses nothing exactly when the state and the peer provide for it. -/
theorem step_returns_iff (h : BackendSafe b) (act : Backend.Act)
    : (∃ b' out, backendMachine.step b act = .ok (b', out)) ↔ b.provides act = true := by
  have hpair : (∃ b' out, backendMachine.step b act = .ok (b', out)) ↔ ∃ r, b.step act = .ok r :=
    ⟨fun ⟨b', out, hr⟩ => ⟨(b', out), hr⟩, fun ⟨⟨b', out⟩, hr⟩ => ⟨b', out, hr⟩⟩
  have hpoll : ∀ {qidx call}, (∃ r, b.poll qidx call = .ok r)
      ↔ ∀ dev, b.virtiodev = some dev → ∃ burst, call dev b.mem = .ok burst := by
    intro qidx call
    unfold Backend.poll
    cases b.virtiodev with
    | none => simp
    | some dev => cases hcall : call dev b.mem <;> simp [hcall]
  rw [hpair]
  cases act with
  | message env msg =>
    simp only [Backend.step, Backend.receive, Backend.provides, Bool.and_eq_true, decide_eq_true_eq]
    split
    . next hlong => simp [Nat.not_le.mpr hlong]
    . next hshort =>
      rw [handler_returns_iff h]
      exact (and_iff_right (Nat.le_of_not_lt hshort)).symm
  | guest mem => simp [Backend.step, Backend.provides]
  | vhostTx newMbuf =>
    simp only [Backend.step, Backend.provides, Option.all_eq_true, hpoll]
    exact forall₂_congr fun dev hdev => vhostTx_returns_iff (h dev hdev) _ _
  | vhostRx pkt =>
    simp only [Backend.step, Backend.provides, Option.all_eq_true, hpoll]
    exact forall₂_congr fun dev hdev => vhostRx_returns_iff (h dev hdev) _ _

/--
The backend gets through a list of messages and polls without misuse exactly when each of them is provided
for in the state in which it comes.
-/
theorem runsSafely_iff (mem : SharedMem) (acts : List Backend.Act)
    : (∃ tr b, BackendRun (.init mem) tr b ∧ tr.map Edge.act = acts)
        ↔ ∀ acts1 act acts2, acts = acts1 ++ act :: acts2
          → ∀ tr b, BackendRun (.init mem) tr b → tr.map Edge.act = acts1 → b.provides act = true :=
  Machine.exists_run_iff_guard (fun h => step_returns_iff (backendSafe_of_run h) _) acts

/-- A SET_VRING_NUM that comes first uses a device that is not there. -/
theorem not_runsSafely
    : ∃ mem act, backendMachine.step (.init mem) act = .error .nullDev
        ∧ ¬∃ tr b, BackendRun (.init mem) tr b ∧ tr.map Edge.act = [act] := by
  have hfails : backendMachine.step (.init .zero) (.send 8 [0, 0, 0, 0, 4, 0, 0, 0]) = .error .nullDev := by
    rfl
  refine ⟨.zero, _, hfails, ?_⟩
  rintro ⟨tr, b, hrun, hacts⟩
  rcases List.map_eq_cons_iff.mp hacts with ⟨e, tr, rfl, hact, _⟩
  rcases hrun.cons_inv with ⟨hpre, hstep, _⟩
  rw [hact, hfails] at hstep
  contradiction

end Vhost
