import DpdkLearning.Vhost.Lemmas.GuestMem

/-!
This module contains how many packets `vhost_rx` delivers: the available count is the difference of a 16-bit
index and a 32-bit counter, and is right until the index wraps, as long as no packet is copied over the index.
-/

open Lib

namespace Vhost

/--
The backend and the memory it shares with the guest, with the heads that the guest has published and that
the backend has given back so far.
-/
structure RxSys where
  dev : VhostDev
  mem : GuestMem
  published : List UInt16
  consumed : List UInt16

/--
The guest publishes a head or writes elsewhere into its memory, or the backend has packets for it.
-/
inductive RxAct where
  | publish (head : UInt16)
  | store (addr : UInt64) (bytes : List UInt8)
  | call (c : RxCall)

namespace RxSys

/--
A call that goes wrong leaves the system where it is.
-/
def afterCall (s : RxSys) (qidx : Fin maxMultiQueue) : Except Misuse GuestMem.Burst → RxSys
  | .error _ => s
  | .ok burst =>
    { s with
      dev := s.dev.setQueue qidx burst.vq
      mem := burst.mem
      consumed := s.consumed ++ givenBack (s.dev.queue qidx) burst.vq burst.mem.view }

/--
The guest moves `avail->idx` on by publishing only.
-/
def step (qidx : Fin maxMultiQueue) (s : RxSys)
    : RxAct → Except Refused (RxSys × Option (Except Misuse GuestMem.Burst))
  | .publish head =>
    if s.published.length < s.consumed.length + (s.dev.queue qidx).num.toNat then
      .ok ({ s with
        mem := s.mem.publish (s.dev.queue qidx) head
        published := s.published ++ [head] }, none)
    else
      .error .full
  | .store addr bytes =>
    if Area.Apart ⟨addr, bytes.length⟩ (s.dev.queue qidx).availIdxArea then
      .ok ({ s with mem := s.mem.write addr bytes }, none)
    else
      .error .badStore
  | .call c =>
    if 0 ≤ c.npkts then
      let result := GuestMem.vhostRx s.dev s.mem qidx c.pkts c.npkts
      .ok (s.afterCall qidx result, some result)
    else
      .error .badCall

end RxSys

abbrev RxStep := Edge RxSys RxAct (Option (Except Misuse GuestMem.Burst))

/--
The guest receives over queue `qidx`.
-/
def rxMachine (qidx : Fin maxMultiQueue) : Machine RxSys RxAct (Option (Except Misuse GuestMem.Burst)) Refused where
  step := RxSys.step qidx

/--
How many packets a call has to process: as many as it is given, a burst, or as many as the guest has
published and did not get back yet.
-/
def RxCall.due (s : RxSys) (c : RxCall) : Nat :=
  min (min c.npkts.toNat maxPktBurst) (s.published.length - s.consumed.length)

/--
A call processes what is due and returns how much that was.
-/
def Delivers (e : RxStep) : Prop :=
  ∀ c, e.act = .call c → ∃ burst, e.out = some (.ok burst) ∧ burst.ret = c.due e.pre
    ∧ e.post.consumed.length = e.pre.consumed.length + c.due e.pre

/--
Every call so far has delivered what was due.
-/
def Delivered (tr : List RxStep) : Prop :=
  ∀ e ∈ tr, Delivers e

/--
There is nothing for a call to do, or `avail->idx` did not wrap yet.
-/
def beforeWrap (s : RxSys) : RxAct → Bool
  | .publish _ => true
  | .store _ _ => true
  | .call c =>
    decide (c.npkts = 0) || decide (s.published.length = s.consumed.length)
      || decide (s.published.length < 65536)

/--
Neither a packet nor a used element is written over `avail->idx` or over a descriptor that the packets of the
call go by, as the descriptors are before it.
-/
def keepsAvailIdx (qidx : Fin maxMultiQueue) (s : RxSys) : RxAct → Bool
  | .publish _ => true
  | .store _ _ => true
  | .call c =>
    let vq := s.dev.queue qidx
    let descIdxs := GuestMem.rxDescIdxs s.dev qidx s.mem c.npkts
    decide (GuestMem.Undisturbed s.dev vq s.mem c.pkts 0 descIdxs)
      && decide (∀ store ∈ GuestMem.rxStores s.dev vq s.mem c.pkts 0 descIdxs, store.area.Apart vq.availIdxArea)
      && decide (vq.usedArea.Apart vq.availIdxArea)

/--
The queue is set up and unused, with both indices at zero.
-/
structure RxStarts (qidx : Fin maxMultiQueue) (s : RxSys) : Prop where
  ready : Ready s.dev (s.dev.queue qidx)
  idx : (s.mem.avail (s.dev.queue qidx).avail).idx = 0
  last : (s.dev.queue qidx).lastUsedIdx = 0
  published : s.published = []
  consumed : s.consumed = []

/--
The indices are those of what has gone through the queue.
-/
structure RxInStep (qidx : Fin maxMultiQueue) (s : RxSys) : Prop where
  ready : Ready s.dev (s.dev.queue qidx)
  idx : (s.mem.avail (s.dev.queue qidx).avail).idx.toNat = s.published.length % 2 ^ 16
  last : (s.dev.queue qidx).lastUsedIdx.toNat = s.consumed.length % 2 ^ 32
  outstanding : s.published.length ≤ s.consumed.length + (s.dev.queue qidx).num.toNat

variable {qidx : Fin maxMultiQueue} {s s' t : RxSys} {c : RxCall} {tr : List RxStep} {act : RxAct}
  {out : Option (Except Misuse GuestMem.Burst)}

theorem RxStarts.inStep (h : RxStarts qidx s) : RxInStep qidx s where
  ready := h.ready
  idx := by
    rw [h.idx, h.published]
    rfl
  last := by
    rw [h.last, h.consumed]
    rfl
  outstanding := by simp [h.published]

theorem rxStep_cases (h : (rxMachine qidx).step s act = .ok (s', out))
    : (∃ head, act = .publish head ∧ out = none
          ∧ s.published.length < s.consumed.length + (s.dev.queue qidx).num.toNat
          ∧ s' = { s with
              mem := s.mem.publish (s.dev.queue qidx) head
              published := s.published ++ [head] })
      ∨ (∃ addr bytes, act = .store addr bytes ∧ out = none
          ∧ Area.Apart ⟨addr, bytes.length⟩ (s.dev.queue qidx).availIdxArea
          ∧ s' = { s with mem := s.mem.write addr bytes })
      ∨ ∃ c, act = .call c ∧ out = some (GuestMem.vhostRx s.dev s.mem qidx c.pkts c.npkts) ∧ 0 ≤ c.npkts
          ∧ s' = s.afterCall qidx (GuestMem.vhostRx s.dev s.mem qidx c.pkts c.npkts) := by
  cases act with
  | publish head =>
    simp only [rxMachine, RxSys.step] at h
    split at h
    . next hroom =>
      cases h
      exact .inl ⟨head, rfl, rfl, hroom, rfl⟩
    . contradiction
  | store addr bytes =>
    simp only [rxMachine, RxSys.step] at h
    split at h
    . next hapart =>
      cases h
      exact .inr (.inl ⟨addr, bytes, rfl, rfl, hapart, rfl⟩)
    . contradiction
  | call c =>
    simp only [rxMachine, RxSys.step] at h
    split at h
    . next hallowed =>
      cases h
      exact .inr (.inr ⟨c, rfl, rfl, hallowed, rfl⟩)
    . contradiction

/--
What a call that keeps `avail->idx` does to the queue.
-/
structure Takes (qidx : Fin maxMultiQueue) (s : RxSys) (n : Nat) (burst : GuestMem.Burst) : Prop where
  ret : burst.ret = n
  queue : burst.vq = { s.dev.queue qidx with lastUsedIdx := (s.dev.queue qidx).lastUsedIdx + n.toUInt32 }
  idx : (burst.mem.avail (s.dev.queue qidx).avail).idx = (s.mem.avail (s.dev.queue qidx).avail).idx
  consumed : (s.afterCall qidx (.ok burst)).consumed.length = s.consumed.length + n

theorem vhostRx_takes (h : Ready s.dev (s.dev.queue qidx)) (hkeeps : keepsAvailIdx qidx s (.call c) = true)
    : ∃ burst, GuestMem.vhostRx s.dev s.mem qidx c.pkts c.npkts = .ok burst
        ∧ Takes qidx s (vhostRxCount (s.dev.queue qidx) s.mem.view c.npkts) burst := by
  simp only [keepsAvailIdx, Bool.and_eq_true, decide_eq_true_eq] at hkeeps
  rcases GuestMem.vhostRx_sim h s.mem c.pkts c.npkts hkeeps.1.1 with ⟨shared, burst, hshared, hcall, hsim⟩
  rcases vhostRx_ok h s.mem.view c.pkts c.npkts with ⟨shared', hcall', hput⟩
  rw [hshared] at hcall'
  cases hcall'
  have hlen : vhostRxCount (s.dev.queue qidx) s.mem.view c.npkts < 2 ^ 32 := by
    rw [vhostRxCount, maxPktBurst]
    omega
  have hret := hput.ret
  have hqueue := hput.queue
  rw [List.length_mapIdx, length_availHeads] at hret hqueue
  refine ⟨burst, hcall, hsim.ret.trans hret, hsim.queue.trans hqueue, ?_, ?_⟩
  . exact GuestMem.availIdx_congr (hsim.frame _ hkeeps.1.2 hkeeps.2)
  . dsimp only [RxSys.afterCall]
    rw [List.length_append, givenBack, List.length_map, List.length_range, hsim.queue, hqueue]
    dsimp only
    rw [UInt32.add_comm, UInt32.add_sub_cancel]
    congr 1
    exact Nat.mod_eq_of_lt hlen

theorem vhostRxNavail_eq (h : RxInStep qidx s) (hsmall : s.consumed.length < 2 ^ 16)
    : vhostRxNavail (s.dev.queue qidx) s.mem.view
        = ((s.published.length % 2 ^ 16 : Nat) : Int) - s.consumed.length := by
  have hidx := h.idx
  have hlast := h.last
  rw [Nat.mod_eq_of_lt (by omega)] at hlast
  unfold vhostRxNavail
  change ((s.mem.avail (s.dev.queue qidx).avail).idx.toUInt32 - _).toInt32.toInt = _
  generalize (s.mem.avail (s.dev.queue qidx).avail).idx = idx at *
  generalize (s.dev.queue qidx).lastUsedIdx = last at *
  change (idx.toUInt32 - last).toBitVec.toInt = _
  rw [BitVec.toInt_eq_toNat_cond, UInt32.toNat_toBitVec, UInt32.toNat_sub, UInt16.toNat_toUInt32,
    hidx, hlast]
  split <;> omega

theorem RxInStep.publish (h : RxInStep qidx s) (head : UInt16)
    (hroom : s.published.length < s.consumed.length + (s.dev.queue qidx).num.toNat)
    : RxInStep qidx { s with
        mem := s.mem.publish (s.dev.queue qidx) head
        published := s.published ++ [head] } where
  ready := h.ready
  idx := by
    have hidx := h.idx
    have hnext : ((s.mem.publish (s.dev.queue qidx) head).avail (s.dev.queue qidx).avail).idx
        = (s.mem.avail (s.dev.queue qidx).avail).idx + 1 :=
      AddrSpace.load16_store16 _ _ _
    dsimp only
    rw [hnext, UInt16.toNat_add, hidx, List.length_append, List.length_singleton]
    change (_ + 1) % 2 ^ 16 = _
    omega
  last := h.last
  outstanding := by
    rw [List.length_append, List.length_singleton]
    exact hroom

theorem RxInStep.takes {n : Nat} {burst : GuestMem.Burst} (h : RxInStep qidx s) (htakes : Takes qidx s n burst)
    : RxInStep qidx (s.afterCall qidx (.ok burst)) := by
  have hready := h.ready
  have hidx := h.idx
  have hlast := h.last
  have houtstanding := h.outstanding
  have hconsumed := htakes.consumed
  have hqueue : (s.afterCall qidx (.ok burst)).dev.queue qidx
      = { s.dev.queue qidx with lastUsedIdx := (s.dev.queue qidx).lastUsedIdx + n.toUInt32 } := by
    rw [RxSys.afterCall, queue_setQueue, htakes.queue]
  constructor
  . rw [hqueue]
    exact ⟨hready.mem, hready.desc, hready.avail, hready.used, hready.num⟩
  . rw [hqueue]
    dsimp only [RxSys.afterCall]
    rw [htakes.idx]
    exact hidx
  . rw [hqueue, hconsumed]
    change ((s.dev.queue qidx).lastUsedIdx + UInt32.ofNat n).toNat = _
    rw [UInt32.toNat_add, hlast]
    change (_ + n % 2 ^ 32) % 2 ^ 32 = _
    omega
  . rw [hqueue, hconsumed]
    dsimp only [RxSys.afterCall]
    omega

/-- A step that keeps `avail->idx` keeps the queue in step. -/
theorem inStep_of_rxStep (h : RxInStep qidx s) (hkeeps : keepsAvailIdx qidx s act = true)
    (hstep : (rxMachine qidx).step s act = .ok (s', out)) : RxInStep qidx s' := by
  rcases rxStep_cases hstep with ⟨head, rfl, _, hroom, rfl⟩ | ⟨addr, bytes, rfl, _, hapart, rfl⟩
    | ⟨c, rfl, _, _, rfl⟩
  . exact h.publish head hroom
  . refine ⟨h.ready, ?_, h.last, h.outstanding⟩
    have hidx := @GuestMem.availIdx_congr (s.dev.queue qidx) s.mem (s.mem.write addr bytes)
      (AddrSpace.same_store hapart)
    dsimp only
    rw [hidx]
    exact h.idx
  . rcases vhostRx_takes h.ready hkeeps with ⟨burst, hcall, htakes⟩
    rw [hcall]
    exact h.takes htakes

theorem delivered_append_iff {e : RxStep} : Delivered (tr ++ [e]) ↔ Delivered tr ∧ Delivers e := by
  simp [Delivered, or_imp, forall_and]

/-- A call delivers what is due exactly before the index wraps, or when nothing is due. -/
theorem delivers_of_call (h : RxInStep qidx s) (hsmall : s.consumed.length < 2 ^ 16)
    (hahead : s.consumed.length ≤ s.published.length) (hkeeps : keepsAvailIdx qidx s act = true)
    (hstep : (rxMachine qidx).step s act = .ok (s', out))
    : Delivers ⟨s, act, out, s'⟩ ↔ beforeWrap s act = true := by
  rcases rxStep_cases hstep with ⟨head, rfl, rfl, _, rfl⟩ | ⟨addr, bytes, rfl, rfl, _, rfl⟩
    | ⟨c, rfl, rfl, hnonneg, rfl⟩
  . simp [Delivers, beforeWrap]
  . simp [Delivers, beforeWrap]
  . rcases vhostRx_takes h.ready hkeeps with ⟨burst, hcall, htakes⟩
    have hnavail := vhostRxNavail_eq h hsmall
    have houtstanding := h.outstanding
    have hnum := h.ready.num.le
    -- Below the wrap the two indices differ by what is published and not given back yet.
    have hcount : vhostRxCount (s.dev.queue qidx) s.mem.view c.npkts = c.due s
        ↔ beforeWrap s (.call c) = true := by
      simp only [beforeWrap, Bool.or_eq_true, decide_eq_true_eq]
      rw [vhostRxCount, hnavail, RxCall.due, maxPktBurst]
      omega
    rw [← hcount, hcall]
    constructor
    . intro hdelivers
      rcases hdelivers c rfl with ⟨burst', hout, hret', _⟩
      cases hout
      rw [← htakes.ret, hret']
    . rintro heq c' hc'
      cases hc'
      exact ⟨burst, rfl, by rw [htakes.ret, heq], by rw [htakes.consumed, heq]⟩

/--
What holds in a run whose steps kept `avail->idx`: how far the counters are while the calls deliver, and that
they deliver before the wrap.
-/
structure RxHistory (qidx : Fin maxMultiQueue) (tr : List RxStep) (s : RxSys) : Prop where
  inStep : RxInStep qidx s
  small : Delivered tr → s.consumed.length < 2 ^ 16 ∧ s.consumed.length ≤ s.published.length
  iff : Delivered tr ↔ ∀ e ∈ tr, beforeWrap e.pre e.act = true

theorem RxHistory.snoc (h : RxHistory qidx tr s) (hkeeps : keepsAvailIdx qidx s act = true)
    (hstep : (rxMachine qidx).step s act = .ok (s', out)) : RxHistory qidx (tr ++ [⟨s, act, out, s'⟩]) s' where
  inStep := inStep_of_rxStep h.inStep hkeeps hstep
  small hall := by
    rcases delivered_append_iff.mp hall with ⟨hpast, hdelivers⟩
    have hbefore := h.small hpast
    have hguard := (delivers_of_call h.inStep hbefore.1 hbefore.2 hkeeps hstep).mp hdelivers
    rcases rxStep_cases hstep with ⟨head, rfl, rfl, _, rfl⟩ | ⟨addr, bytes, rfl, rfl, _, rfl⟩
      | ⟨c, rfl, rfl, _, hs'⟩
    . simp
      omega
    . exact hbefore
    . rcases hdelivers c rfl with ⟨_, _, _, hconsumed⟩
      have hpublished : s'.published = s.published := by
        rw [hs']
        cases GuestMem.vhostRx s.dev s.mem qidx c.pkts c.npkts <;> rfl
      rw [hconsumed, hpublished]
      simp only [beforeWrap, Bool.or_eq_true, decide_eq_true_eq] at hguard
      simp only [RxCall.due]
      omega
  iff := by
    rw [delivered_append_iff, List.forall_mem_append, List.forall_mem_singleton, ← h.iff]
    apply and_congr_right
    intro hpast
    have hbefore := h.small hpast
    exact delivers_of_call h.inStep hbefore.1 hbefore.2 hkeeps hstep

/--
A guest with these descriptors and empty queues.
-/
def RxSys.pages (descs : List VirtqDesc) : RxSys where
  dev := pagesDev 0
  mem := .ofDescs 0x7f0000000000 descs
  published := []
  consumed := []

section Wrap

def quietDesc : VirtqDesc :=
  ⟨0x4000, 100, 0⟩

/--
The guest publishes descriptor 0 over and over again, which has a buffer far away from the rings.
-/
structure Quiet (s : RxSys) : Prop where
  queue : ∃ last, s.dev.queue vhostRxQidx = .pages 0x7f0000000000 last
  table : s.dev.mem = (pagesDev 0).mem
  desc : s.mem.desc 0x7f0000000000 0 = quietDesc
  ring : ∀ j < 4, (s.mem.avail 0x7f0000001000).ring j = 0

/--
The header that every packet is given.
-/
def quietStore : DescStore :=
  ⟨0x7f0000004000, .replicate hdrlen 0⟩

variable {n : Nat}

theorem Quiet.ready (h : Quiet s) : Ready s.dev (s.dev.queue vhostRxQidx) := by
  rcases h.queue with ⟨last, hqueue⟩
  rw [hqueue]
  exact ready_pages ⟨_, h.table.trans rfl, by decide⟩ last (by decide) (by decide) (by decide)

theorem Quiet.descIdxs (h : Quiet s) (npkts : Int)
    : ∀ d ∈ GuestMem.rxDescIdxs s.dev vhostRxQidx s.mem npkts, d = 0 := by
  rcases h.queue with ⟨last, hqueue⟩
  intro d hd
  rw [GuestMem.rxDescIdxs, rxHeads, availHeads, hqueue] at hd
  simp only [List.mem_map, List.mem_range] at hd
  rcases hd with ⟨head, ⟨i, _, rfl⟩, rfl⟩
  have hring := h.ring _ (Nat.mod_lt (last.toNat + i) (by decide))
  change ((s.mem.avail 0x7f0000001000).ring ((last.toNat + i) % 4)).toUInt32 = 0
  rw [hring]
  rfl

theorem Quiet.descAreas (h : Quiet s) (npkts : Int)
    : ∀ r ∈ GuestMem.rxDescAreas (s.dev.queue vhostRxQidx) s.mem
        (GuestMem.rxDescIdxs s.dev vhostRxQidx s.mem npkts), r = ⟨0x7f0000000000, 16⟩ := by
  rcases h.queue with ⟨last, hqueue⟩
  intro r hr
  rw [GuestMem.rxDescAreas, List.mem_flatMap] at hr
  rcases hr with ⟨d, hd, hr⟩
  rw [h.descIdxs npkts d hd, hqueue, GuestMem.descAreas] at hr
  change r ∈ _ :: (if (s.mem.desc 0x7f0000000000 0).len = _ then _ else _) at hr
  rw [h.desc, if_neg (by decide), List.mem_singleton] at hr
  exact hr

theorem Quiet.stores (h : Quiet s) (c : RxCall)
    : ∀ store ∈ GuestMem.rxStores s.dev (s.dev.queue vhostRxQidx) s.mem c.pkts 0
        (GuestMem.rxDescIdxs s.dev vhostRxQidx s.mem c.npkts), store = quietStore := by
  have hready := h.ready
  rcases h.queue with ⟨last, hqueue⟩
  rw [hqueue] at hready
  have hhva : s.dev.gpaToHva 0x4000 = .ok 0x7f0000004000 := by
    unfold VhostDev.gpaToHva Vhost.gpaToHva
    rw [h.table]
    rfl
  intro store hstore
  rw [GuestMem.rxStores, List.mem_flatMap] at hstore
  rcases hstore with ⟨p, hp, hstore⟩
  rw [h.descIdxs c.npkts p.1 (List.fst_mem_of_mem_zipIdx hp), hqueue] at hstore
  have hdesc : s.mem.view.desc (Virtqueue.pages 0x7f0000000000 last).desc (0 : UInt32).toNat = quietDesc := h.desc
  have hstores := @mbufToDescStores_eq s.dev (.pages 0x7f0000000000 last) s.mem.view (c.pkts p.2) 0
    0x7f0000004000 0x7f0000004000 hready.desc (by rw [hdesc]; exact hhva)
    (by rw [hdesc]; exact (congrArg (fun d : VirtqDesc => s.dev.gpaToHva d.addr) h.desc).trans hhva)
  rw [GuestMem.descStores, hstores, hdesc] at hstore
  rw [if_neg (by decide), List.mem_singleton] at hstore
  exact hstore

/-- Neither the header of a packet nor a used element comes near the descriptor and the avail ring. -/
theorem Quiet.keeps (h : Quiet s) (c : RxCall) : keepsAvailIdx vhostRxQidx s (.call c) = true := by
  have hareas := h.descAreas c.npkts
  have hstores := h.stores c
  rcases h.queue with ⟨last, hqueue⟩
  simp only [keepsAvailIdx, Bool.and_eq_true, decide_eq_true_eq]
  refine ⟨⟨⟨?_, ?_⟩, ?_⟩, ?_⟩
  . intro store hstore r hr
    rw [hstores store hstore, hareas r hr]
    decide
  . intro r hr
    rw [hareas r hr, hqueue]
    change Area.Apart ⟨0x7f0000002002, 34⟩ ⟨0x7f0000000000, 16⟩
    decide
  . intro store hstore
    rw [hstores store hstore, hqueue]
    change Area.Apart ⟨0x7f0000004000, 12⟩ ⟨0x7f0000001002, 2⟩
    decide
  . rw [hqueue]
    change Area.Apart ⟨0x7f0000002002, 34⟩ ⟨0x7f0000001002, 2⟩
    decide

theorem Quiet.call (h : Quiet s) (c : RxCall)
    : ∃ burst, GuestMem.vhostRx s.dev s.mem vhostRxQidx c.pkts c.npkts = .ok burst
        ∧ Quiet (s.afterCall vhostRxQidx (.ok burst)) := by
  have hkeeps := h.keeps c
  simp only [keepsAvailIdx, Bool.and_eq_true, decide_eq_true_eq] at hkeeps
  rcases vhostRx_takes h.ready (h.keeps c) with ⟨burst, hcall, htakes⟩
  rcases GuestMem.vhostRx_sim h.ready s.mem c.pkts c.npkts hkeeps.1.1 with ⟨shared, burst', _, hcall', hsim⟩
  rw [hcall] at hcall'
  cases hcall'
  rcases h.queue with ⟨last, hqueue⟩
  have hsame : AddrSpace.Same ⟨0x7f0000000000, 0x1800⟩ s.mem.bytes burst.mem.bytes := by
    apply hsim.frame
    . intro store hstore
      rw [h.stores c store hstore]
      decide
    . rw [hqueue]
      change Area.Apart ⟨0x7f0000002002, 34⟩ ⟨0x7f0000000000, 0x1800⟩
      decide
  refine ⟨burst, hcall, ?_⟩
  constructor
  . rw [RxSys.afterCall, queue_setQueue, htakes.queue, hqueue]
    exact ⟨_, rfl⟩
  . exact h.table
  . rw [← h.desc]
    exact @GuestMem.desc_congr (.pages 0x7f0000000000 last) s.mem burst.mem 0
      (hsame.mono (Area.within_offset (k := 0) (by decide) (by decide)))
  . intro j hj
    rw [← h.ring j hj]
    apply AddrSpace.load16_congr
    apply hsame.mono
    change Area.Within ⟨0x7f0000000000 + (0x1000 : Nat).toUInt64 + (4 + 2 * j).toUInt64, 2⟩ _
    rw [add_toUInt64_add]
    apply Area.within_offset (by decide)
    omega

theorem Quiet.publish (h : Quiet s)
    : Quiet { s with
        mem := s.mem.publish (s.dev.queue vhostRxQidx) 0
        published := s.published ++ [0] } := by
  have hnum := h.ready.num
  rcases h.queue with ⟨last, hqueue⟩
  rw [hqueue] at hnum
  constructor
  . exact ⟨last, hqueue⟩
  . exact h.table
  . rw [← h.desc, hqueue]
    apply @GuestMem.desc_congr (.pages 0x7f0000000000 last) s.mem _ 0
    apply GuestMem.same_publish hnum.le hnum.pos
    change Area.Apart ⟨0x7f0000001000, 12⟩ ⟨0x7f0000000000, 16⟩
    decide
  . intro j hj
    have hring := @GuestMem.ring_publish (.pages 0x7f0000000000 last) s.mem j hnum.le hj 0
    have hzero := h.ring j hj
    change (s.mem.avail (Virtqueue.pages 0x7f0000000000 last).avail).ring j = 0 at hzero
    rw [hzero, ite_self] at hring
    dsimp only
    rw [hqueue]
    exact hring

end Wrap

end Vhost
