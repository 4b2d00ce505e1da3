import DpdkLearning.Vhost.Lemmas.GuestMem

/-!
This module contains the accounts of the used rings: as long as no packet is copied over them, `used->idx` and
`last_used_idx` move together over all calls of `vhost_tx` and `vhost_rx`, and each call gives back what the
avail ring held in the same slots.
-/

open Lib

namespace Vhost

/--
The device and the memory that it shares with the guest.
-/
structure NetSys where
  dev : VhostDev
  mem : GuestMem

/--
The guest writes into what is its own: descriptors, avail rings and buffers.
-/
inductive NetAct where
  | guest (addr : UInt64) (bytes : List UInt8)
  | tx (newMbuf : Nat → Bool) (npkts : UInt16)
  | rx (pkts : Nat → Mbuf) (npkts : Int)

/--
The queue that a call works on.
-/
def NetAct.queue (qidx : Fin maxMultiQueue) : NetAct → Option (Fin maxMultiQueue)
  | .guest _ _ => none
  | .tx _ _ => some vhostTxQidx
  | .rx _ _ => some qidx

namespace NetSys

/--
A call that goes wrong leaves the system where it is.
-/
def afterCall (s : NetSys) (qidx : Fin maxMultiQueue) : Except Misuse GuestMem.Burst → NetSys
  | .error _ => s
  | .ok burst => ⟨s.dev.setQueue qidx burst.vq, burst.mem⟩

/--
The guest writes into no used ring. A call is asked for no more packets than the ring has slots, and
`vhost_tx` for no more than a burst.
-/
def step (qidx : Fin maxMultiQueue) (s : NetSys)
    : NetAct → Except Refused (NetSys × Option (Except Misuse GuestMem.Burst))
  | .guest addr bytes =>
    if Area.Apart ⟨addr, bytes.length⟩ (s.dev.queue vhostTxQidx).usedArea
        ∧ Area.Apart ⟨addr, bytes.length⟩ (s.dev.queue qidx).usedArea then
      .ok ({ s with mem := s.mem.write addr bytes }, none)
    else
      .error .badStore
  | .tx newMbuf npkts =>
    if npkts.toNat ≤ (s.dev.queue vhostTxQidx).num.toNat ∧ npkts.toNat ≤ maxPktBurst then
      let result := GuestMem.vhostTx newMbuf s.dev s.mem npkts
      .ok (s.afterCall vhostTxQidx result, some result)
    else
      .error .badCall
  | .rx pkts npkts =>
    if npkts ≤ (s.dev.queue qidx).num.toNat then
      let result := GuestMem.vhostRx s.dev s.mem qidx pkts npkts
      .ok (s.afterCall qidx result, some result)
    else
      .error .badCall

/--
`used->idx - last_used_idx`, modulo 2^16.
-/
def lag (s : NetSys) (q : Fin maxMultiQueue) : UInt16 :=
  (s.mem.used (s.dev.queue q).used).idx - (s.dev.queue q).lastUsedIdx.toUInt16

/--
The used ring of the queue holds the same in both states.
-/
def KeepsUsed (s s' : NetSys) (q : Fin maxMultiQueue) : Prop :=
  SameUsed (s.dev.queue q).num.toNat (s.mem.used (s.dev.queue q).used) (s'.mem.used (s.dev.queue q).used)

end NetSys

abbrev NetStep := Edge NetSys NetAct (Option (Except Misuse GuestMem.Burst))

/--
The guest sends over queue 1 and receives over queue `qidx`.
-/
def netMachine (qidx : Fin maxMultiQueue)
    : Machine NetSys NetAct (Option (Except Misuse GuestMem.Burst)) Refused where
  step := NetSys.step qidx

/--
The queue has moved on by `n` slots, which have the heads that the avail ring held in these slots, and
nothing else has changed in the used rings.
-/
structure GivesBack (qidx q : Fin maxMultiQueue) (s s' : NetSys) (n : Nat) : Prop where
  last : (s'.dev.queue q).lastUsedIdx = (s.dev.queue q).lastUsedIdx + n.toUInt32
  idx : (s'.mem.used (s.dev.queue q).used).idx = (s.mem.used (s.dev.queue q).used).idx + n.toUInt16
  fits : n ≤ (s.dev.queue q).num.toNat
  ids : ∀ i < n,
    ((s'.mem.used (s.dev.queue q).used).ring
        (((s.dev.queue q).lastUsedIdx.toNat + i) % (s.dev.queue q).num.toNat)).id
      = ((s.mem.avail (s.dev.queue q).avail).ring
          (((s.dev.queue q).lastUsedIdx.toNat + i) % (s.dev.queue q).num.toNat)).toUInt32
  others : ∀ j < (s.dev.queue q).num.toNat,
    (∀ i < n, ((s.dev.queue q).lastUsedIdx.toNat + i) % (s.dev.queue q).num.toNat ≠ j) →
    (s'.mem.used (s.dev.queue q).used).ring j = (s.mem.used (s.dev.queue q).used).ring j
  elsewhere : ∀ q', q' = vhostTxQidx ∨ q' = qidx → q' ≠ q → s.KeepsUsed s' q'
  queues : ∀ q', q' ≠ q → s'.dev.queue q' = s.dev.queue q'

/--
A call returns how many descriptors it has given back, and the guest touches no used ring.
-/
structure Accounted (qidx : Fin maxMultiQueue) (e : NetStep) : Prop where
  call : ∀ q, e.act.queue qidx = some q →
    ∃ burst, e.out = some (.ok burst) ∧ GivesBack qidx q e.pre e.post burst.ret
  guest : e.act.queue qidx = none → e.post.dev = e.pre.dev
    ∧ ∀ q, q = vhostTxQidx ∨ q = qidx → e.pre.KeepsUsed e.post q

/--
Both queues are set up, and have used rings of their own if they are two.
-/
structure Serving (qidx : Fin maxMultiQueue) (s : NetSys) : Prop where
  tx : Ready s.dev (s.dev.queue vhostTxQidx)
  rx : Ready s.dev (s.dev.queue qidx)
  apart : qidx ≠ vhostTxQidx → (s.dev.queue qidx).usedArea.Apart (s.dev.queue vhostTxQidx).usedArea

/--
The call copies no packet over a used ring, nor over a descriptor that its packets go by, as the descriptors
are before it, and no descriptor that they go by lies in its used ring.
-/
def copiesApart (qidx : Fin maxMultiQueue) (s : NetSys) : NetAct → Bool
  | .guest _ _ => true
  | .tx _ _ => true
  | .rx pkts npkts =>
    let vq := s.dev.queue qidx
    let descIdxs := GuestMem.rxDescIdxs s.dev qidx s.mem npkts
    decide (GuestMem.Undisturbed s.dev vq s.mem pkts 0 descIdxs)
      && decide (∀ store ∈ GuestMem.rxStores s.dev vq s.mem pkts 0 descIdxs,
        store.area.Apart vq.usedArea ∧ store.area.Apart (s.dev.queue vhostTxQidx).usedArea)

variable {qidx q q' : Fin maxMultiQueue} {s s' t : NetSys} {act : NetAct} {burst : GuestMem.Burst}
  {shared : Burst} {stores : List DescStore} {n : Nat} {out : Option (Except Misuse GuestMem.Burst)}
  {elems : List VirtqUsedElem} {tr : List NetStep}

theorem Serving.ready (h : Serving qidx s) (hq : q = vhostTxQidx ∨ q = qidx) : Ready s.dev (s.dev.queue q) := by
  rcases hq with rfl | rfl
  . exact h.tx
  . exact h.rx

theorem Serving.apart_of_ne (h : Serving qidx s) (hq : q = vhostTxQidx ∨ q = qidx)
    (hq' : q' = vhostTxQidx ∨ q' = qidx) (hne : q' ≠ q)
    : (s.dev.queue q).usedArea.Apart (s.dev.queue q').usedArea := by
  rcases hq with rfl | rfl <;> rcases hq' with rfl | rfl
  . exact absurd rfl hne
  . exact (h.apart hne).symm
  . exact h.apart (Ne.symm hne)
  . exact absurd rfl hne

/-- What a call does where the rings are apart it does to the used rings in the memory of the guest. -/
theorem givesBack_of_put (h : Serving qidx s) (hq : q = vhostTxQidx ∨ q = qidx)
    (hput : Put (s.dev.queue q) s.mem.view elems shared)
    (hsim : GuestMem.Simulates (s.dev.queue q) stores s.mem shared burst)
    (hoff : ∀ store ∈ stores, ∀ q', q' = vhostTxQidx ∨ q' = qidx → store.area.Apart (s.dev.queue q').usedArea)
    (hfit : elems.length ≤ (s.dev.queue q).num.toNat)
    (hids : elems.map VirtqUsedElem.id
      = (availHeads (s.dev.queue q) s.mem.view elems.length).map UInt16.toUInt32)
    : GivesBack qidx q s (s.afterCall q (.ok burst)) burst.ret := by
  rcases hput.shared with ⟨mem1, hused, hmem⟩
  have hsame := hsim.used (fun store hs => hoff store hs q hq)
  have hring : ∀ j < (s.dev.queue q).num.toNat, (burst.mem.used (s.dev.queue q).used).ring j
      = (mem1.used (s.dev.queue q).used).ring j := by
    intro j hj
    rw [hsame.ring j hj, hmem]
    simp [SharedMem.addUsedIdx]
  have hslot : ∀ i, ((s.dev.queue q).lastUsedIdx.toNat + i) % (s.dev.queue q).num.toNat
      < (s.dev.queue q).num.toNat :=
    fun i => Nat.mod_lt _ (h.ready hq).num.pos
  rw [hsim.ret, hput.ret]
  unfold NetSys.afterCall
  constructor
  . dsimp only
    rw [queue_setQueue, hsim.queue, hput.queue]
  . dsimp only
    rw [hsame.idx, hmem]
    have hidx := hused.idx
    change (mem1.used _).idx = (s.mem.used _).idx at hidx
    rw [← hidx]
    simp [SharedMem.addUsedIdx]
  . exact hfit
  . intro i hi
    dsimp only
    have hread := hused.read hfit
    have helem : elems[i]? = some ((mem1.used (s.dev.queue q).used).ring
        (((s.dev.queue q).lastUsedIdx.toNat + i) % (s.dev.queue q).num.toNat)) := by
      rw [← hread]
      simp [hi]
    have hid := congrArg (fun ids => ids[i]?) hids
    simp only [List.getElem?_map, helem, availHeads, List.getElem?_range hi, Option.map_some,
      Option.some.injEq] at hid
    rw [hring _ (hslot i), hid]
    rfl
  . intro j hj hothers
    dsimp only
    rw [hring j hj, hused.others j hothers]
    rfl
  . intro q' hq' hne
    apply GuestMem.used_congr (h.ready hq').num.le
    exact hsim.frame _ (fun store hs => hoff store hs q' hq') (h.apart_of_ne hq hq' hne)
  . intro q' hq'
    exact queue_setQueue_ne hq'.symm

theorem GivesBack.lag (h : GivesBack qidx q s s' n) (hused : (s'.dev.queue q).used = (s.dev.queue q).used)
    : s'.lag q = s.lag q := by
  have hsame : (n.toUInt32).toUInt16 = n.toUInt16 := UInt32.toUInt16_ofNat' n
  unfold NetSys.lag
  rw [hused, h.idx, h.last, UInt32.toUInt16_add, hsame]
  generalize n.toUInt16 = i
  grind

theorem GivesBack.lag_other (h : GivesBack qidx q s s' n) (hq : q' = vhostTxQidx ∨ q' = qidx) (hne : q' ≠ q)
    : s'.lag q' = s.lag q' := by
  unfold NetSys.lag
  rw [h.queues q' hne, (h.elsewhere q' hq hne).idx]

theorem vhostTx_givesBack (h : Serving qidx s) (newMbuf : Nat → Bool) {npkts : UInt16}
    (hfit : npkts.toNat ≤ (s.dev.queue vhostTxQidx).num.toNat) (hburst : npkts.toNat ≤ maxPktBurst)
    : ∃ burst last, GuestMem.vhostTx newMbuf s.dev s.mem npkts = .ok burst
        ∧ burst.vq = { s.dev.queue vhostTxQidx with lastUsedIdx := last }
        ∧ GivesBack qidx vhostTxQidx s (s.afterCall vhostTxQidx (.ok burst)) burst.ret := by
  rcases GuestMem.vhostTx_sim h.tx s.mem newMbuf hburst with ⟨shared, burst, hshared, hcall, hsim⟩
  rcases vhostTx_ok newMbuf h.tx s.mem.view hburst with ⟨shared', hcall', hput, _⟩
  rw [hshared] at hcall'
  cases hcall'
  have hcount := packetsFor_le newMbuf 0 npkts.toNat
  refine ⟨burst, _, hcall, hsim.queue.trans hput.queue, ?_⟩
  apply givesBack_of_put h (.inl rfl) hput hsim
  . intro store hstore
    contradiction
  . rw [List.length_map, length_availHeads]
    omega
  . rw [List.length_map, length_availHeads, List.map_map]
    rfl

theorem vhostRx_givesBack (h : Serving qidx s) (pkts : Nat → Mbuf) {npkts : Int}
    (hfit : npkts ≤ (s.dev.queue qidx).num.toNat) (hcopies : copiesApart qidx s (.rx pkts npkts) = true)
    : ∃ burst last, GuestMem.vhostRx s.dev s.mem qidx pkts npkts = .ok burst
        ∧ burst.vq = { s.dev.queue qidx with lastUsedIdx := last }
        ∧ GivesBack qidx qidx s (s.afterCall qidx (.ok burst)) burst.ret := by
  simp only [copiesApart, Bool.and_eq_true, decide_eq_true_eq] at hcopies
  rcases GuestMem.vhostRx_sim h.rx s.mem pkts npkts hcopies.1 with ⟨shared, burst, hshared, hcall, hsim⟩
  rcases vhostRx_ok h.rx s.mem.view pkts npkts with ⟨shared', hcall', hput⟩
  rw [hshared] at hcall'
  cases hcall'
  refine ⟨burst, _, hcall, hsim.queue.trans hput.queue, ?_⟩
  apply givesBack_of_put h (.inr rfl) hput hsim
  . rintro store hstore q' (rfl | rfl)
    . exact (hcopies.2 store hstore).2
    . exact (hcopies.2 store hstore).1
  . rw [List.length_mapIdx, length_availHeads, vhostRxCount]
    omega
  . rw [List.length_mapIdx, length_availHeads]
    apply List.ext_getElem
    . simp
    . simp

theorem serving_of_call {last : UInt32} (h : Serving qidx s)
    (hvq : burst.vq = { s.dev.queue q with lastUsedIdx := last })
    : Serving qidx (s.afterCall q (.ok burst)) := by
  have hsame : ∀ q', ∃ last, (s.afterCall q (.ok burst)).dev.queue q'
      = { s.dev.queue q' with lastUsedIdx := last } := by
    intro q'
    by_cases hq : q' = q
    . subst hq
      exact ⟨_, by rw [NetSys.afterCall, queue_setQueue, hvq]⟩
    . exact ⟨_, queue_setQueue_ne (Ne.symm hq)⟩
  rcases hsame vhostTxQidx with ⟨lastTx, htx⟩
  rcases hsame qidx with ⟨lastRx, hrx⟩
  constructor
  . rw [htx]
    exact ⟨h.tx.mem, h.tx.desc, h.tx.avail, h.tx.used, h.tx.num⟩
  . rw [hrx]
    exact ⟨h.rx.mem, h.rx.desc, h.rx.avail, h.rx.used, h.rx.num⟩
  . rw [htx, hrx]
    exact h.apart

theorem netStep_cases (h : (netMachine qidx).step s act = .ok (s', out))
    : (∃ addr bytes, act = .guest addr bytes
          ∧ (∀ q, q = vhostTxQidx ∨ q = qidx → Area.Apart ⟨addr, bytes.length⟩ (s.dev.queue q).usedArea)
          ∧ s' = { s with mem := s.mem.write addr bytes })
      ∨ (∃ newMbuf npkts, act = .tx newMbuf npkts
          ∧ npkts.toNat ≤ (s.dev.queue vhostTxQidx).num.toNat ∧ npkts.toNat ≤ maxPktBurst
          ∧ out = some (GuestMem.vhostTx newMbuf s.dev s.mem npkts)
          ∧ s' = s.afterCall vhostTxQidx (GuestMem.vhostTx newMbuf s.dev s.mem npkts))
      ∨ ∃ pkts npkts, act = .rx pkts npkts ∧ npkts ≤ (s.dev.queue qidx).num.toNat
          ∧ out = some (GuestMem.vhostRx s.dev s.mem qidx pkts npkts)
          ∧ s' = s.afterCall qidx (GuestMem.vhostRx s.dev s.mem qidx pkts npkts) := by
  cases act with
  | guest addr bytes =>
    simp only [netMachine, NetSys.step] at h
    split at h
    . next hapart =>
      cases h
      refine .inl ⟨addr, bytes, rfl, ?_, rfl⟩
      rintro q (rfl | rfl)
      . exact hapart.1
      . exact hapart.2
    . contradiction
  | tx newMbuf npkts =>
    simp only [netMachine, NetSys.step] at h
    split at h
    . next hallowed =>
      cases h
      exact .inr (.inl ⟨newMbuf, npkts, rfl, hallowed.1, hallowed.2, rfl, rfl⟩)
    . contradiction
  | rx pkts npkts =>
    simp only [netMachine, NetSys.step] at h
    split at h
    . next hallowed =>
      cases h
      exact .inr (.inr ⟨pkts, npkts, rfl, hallowed, rfl, rfl⟩)
    . contradiction

theorem used_afterCall {last : UInt32} (hvq : burst.vq = { s.dev.queue q with lastUsedIdx := last })
    : ((s.afterCall q (.ok burst)).dev.queue q).used = (s.dev.queue q).used := by
  rw [NetSys.afterCall, queue_setQueue, hvq]

theorem GivesBack.lags (h : GivesBack qidx q s s' n) (hused : (s'.dev.queue q).used = (s.dev.queue q).used)
    (hq : q' = vhostTxQidx ∨ q' = qidx) : s'.lag q' = s.lag q' := by
  by_cases hne : q' = q
  . rw [hne]
    exact h.lag hused
  . exact h.lag_other hq hne

/-- Each step is accounted for, and the indices of both queues keep their distance. -/
theorem accounted_of_step (h : Serving qidx s) (hcopies : copiesApart qidx s act = true)
    (hstep : (netMachine qidx).step s act = .ok (s', out))
    : Accounted qidx ⟨s, act, out, s'⟩ ∧ Serving qidx s' ∧ s'.lag vhostTxQidx = s.lag vhostTxQidx
        ∧ s'.lag qidx = s.lag qidx := by
  rcases netStep_cases hstep with ⟨addr, bytes, rfl, hapart, rfl⟩
    | ⟨newMbuf, npkts, rfl, hfit, hburst, rfl, rfl⟩ | ⟨pkts, npkts, rfl, hfit, rfl, rfl⟩
  . have hkept : ∀ q, q = vhostTxQidx ∨ q = qidx
        → s.KeepsUsed { s with mem := s.mem.write addr bytes } q := by
      intro q hq
      exact GuestMem.used_congr (h.ready hq).num.le (AddrSpace.same_store (hapart q hq))
    have hlag : ∀ q, q = vhostTxQidx ∨ q = qidx
        → NetSys.lag { s with mem := s.mem.write addr bytes } q = s.lag q := by
      intro q hq
      unfold NetSys.lag
      rw [(hkept q hq).idx]
    refine ⟨⟨?_, fun _ => ⟨rfl, hkept⟩⟩, ⟨h.tx, h.rx, h.apart⟩, hlag _ (.inl rfl), hlag _ (.inr rfl)⟩
    intro q hq
    contradiction
  . rcases vhostTx_givesBack h newMbuf hfit hburst with ⟨burst, last, hcall, hvq, hgives⟩
    rw [hcall]
    refine ⟨⟨?_, ?_⟩, serving_of_call h hvq, hgives.lags (used_afterCall hvq) (.inl rfl),
      hgives.lags (used_afterCall hvq) (.inr rfl)⟩
    . intro q hq
      cases hq
      exact ⟨burst, rfl, hgives⟩
    . intro hnone
      contradiction
  . rcases vhostRx_givesBack h pkts hfit hcopies with ⟨burst, last, hcall, hvq, hgives⟩
    rw [hcall]
    refine ⟨⟨?_, ?_⟩, serving_of_call h hvq, hgives.lags (used_afterCall hvq) (.inl rfl),
      hgives.lags (used_afterCall hvq) (.inr rfl)⟩
    . intro q hq
      cases hq
      exact ⟨burst, rfl, hgives⟩
    . intro hnone
      contradiction

/--
In a run whose calls copy no packet over a used ring or a descriptor, each step is accounted for and the
distance of the two indices stays what it was, for both queues.
-/
theorem usedRings_accounted (h0 : Serving qidx s) (h : Machine.Run (netMachine qidx) s tr t)
    (hcopies : ∀ e ∈ tr, copiesApart qidx e.pre e.act = true)
    : (∀ e ∈ tr, Accounted qidx e) ∧ t.lag vhostTxQidx = s.lag vhostTxQidx ∧ t.lag qidx = s.lag qidx := by
  have hall : (∀ e ∈ tr, Accounted qidx e) ∧ Serving qidx t ∧ t.lag vhostTxQidx = s.lag vhostTxQidx
      ∧ t.lag qidx = s.lag qidx := by
    apply h.history_of_guard (P := fun tr t => (∀ e ∈ tr, Accounted qidx e) ∧ Serving qidx t
      ∧ t.lag vhostTxQidx = s.lag vhostTxQidx ∧ t.lag qidx = s.lag qidx)
      (C := fun t act => copiesApart qidx t act = true)
    . exact ⟨by simp, h0, rfl, rfl⟩
    . exact hcopies
    . rintro tr t act out u _ ⟨hpast, hserving, htx, hrx⟩ hguard hstep
      rcases accounted_of_step hserving hguard hstep with ⟨hlast, hserving', htx', hrx'⟩
      refine ⟨?_, hserving', htx'.trans htx, hrx'.trans hrx⟩
      rw [List.forall_mem_append, List.forall_mem_singleton]
      exact ⟨hpast, hlast⟩
  exact ⟨hall.1, hall.2.2⟩

/--
A guest with these descriptors for what it receives.
-/
def NetSys.pages (last : UInt32) (descs : List VirtqDesc) : NetSys where
  dev := pagesDev last
  mem := (GuestMem.ofDescs 0x7f0000000000 descs).write 0x7f0000008000
    (VirtqDesc.bytes ⟨0x6000, 14, 0⟩)

theorem serving_pages (last : UInt32) (descs : List VirtqDesc) : Serving vhostRxQidx (.pages last descs) where
  tx := by
    change Ready (pagesDev last) ((pagesDev last).queue vhostTxQidx)
    rw [pagesDev, queue_setQueue]
    exact ready_pages (scannable_pagesDev last) last (by decide) (by decide) (by decide)
  rx := by
    change Ready (pagesDev last) ((pagesDev last).queue vhostRxQidx)
    rw [queue_pagesDev]
    exact ready_pages (scannable_pagesDev last) last (by decide) (by decide) (by decide)
  apart _ := by
    change ((pagesDev last).queue vhostRxQidx).usedArea.Apart ((pagesDev last).queue vhostTxQidx).usedArea
    rw [queue_pagesDev, pagesDev, queue_setQueue]
    change Area.Apart ⟨0x7f0000002002, 34⟩ ⟨0x7f000000a002, 34⟩
    decide

/-- Three packets are asked for and two are sent, then three are received, over the wrap of the counters. -/
theorem usedRings_accounted_atWrap
    : ∃ s tr t, Serving vhostRxQidx s ∧ Machine.Run (netMachine vhostRxQidx) s tr t
        ∧ (∀ e ∈ tr, copiesApart vhostRxQidx e.pre e.act = true)
        ∧ (t.dev.queue vhostTxQidx).lastUsedIdx = 0 ∧ (t.dev.queue vhostRxQidx).lastUsedIdx = 1
        ∧ (∀ e ∈ tr, Accounted vhostRxQidx e) ∧ t.lag vhostTxQidx = 2 ∧ t.lag vhostRxQidx = 2 := by
  have hcheck : (netMachine vhostRxQidx).check
      (.pages 0xfffffffe [⟨0x4000, 12, 3⟩, ⟨0x4100, 12, 3⟩, ⟨0x4200, 12, 3⟩, ⟨0x5000, 100, 0⟩])
      [.tx (fun i => i < 2) 3, .guest 0x7f0000001002 [1, 0, 2, 0, 0, 0, 0, 0, 1, 0],
        .rx (fun _ => ⟨[], [7, 8, 9], 3⟩) 3]
      (fun tr t => tr.all (fun e => copiesApart vhostRxQidx e.pre e.act)
        && (t.dev.queue vhostTxQidx).lastUsedIdx == 0 && (t.dev.queue vhostRxQidx).lastUsedIdx == 1)
      = true := by
    decide +kernel
  rcases Machine.exists_run_of_check hcheck with ⟨tr, t, hrun, _, htest⟩
  rw [Bool.and_eq_true, Bool.and_eq_true, List.all_eq_true, beq_iff_eq, beq_iff_eq] at htest
  rcases usedRings_accounted (serving_pages _ _) hrun htest.1.1 with ⟨hall, htx, hrx⟩
  have hlagTx : NetSys.lag (.pages 0xfffffffe
      [⟨0x4000, 12, 3⟩, ⟨0x4100, 12, 3⟩, ⟨0x4200, 12, 3⟩, ⟨0x5000, 100, 0⟩]) vhostTxQidx = 2 := by
    decide +kernel
  have hlagRx : NetSys.lag (.pages 0xfffffffe
      [⟨0x4000, 12, 3⟩, ⟨0x4100, 12, 3⟩, ⟨0x4200, 12, 3⟩, ⟨0x5000, 100, 0⟩]) vhostRxQidx = 2 := by
    decide +kernel
  exact ⟨_, tr, t, serving_pages _ _, hrun, htest.1.1, htest.1.2, htest.2, hall, htx.trans hlagTx,
    hrx.trans hlagRx⟩

/--
A buffer of 8 bytes right before the used ring, behind one for the header.
-/
def overrunDescs : List VirtqDesc :=
  [⟨0x4000, 12, 1⟩, ⟨0x1ff8, 8, 0⟩]

/-- A packet of 24 bytes is copied over the used ring behind its buffer, `used->idx` and slot 1 included. -/
theorem not_usedRings_accounted
    : ∃ s tr t, Serving vhostRxQidx s ∧ Machine.Run (netMachine vhostRxQidx) s tr t
        ∧ t.lag vhostRxQidx ≠ s.lag vhostRxQidx
        ∧ (t.mem.used (s.dev.queue vhostRxQidx).used).ring 1 ≠ (s.mem.used (s.dev.queue vhostRxQidx).used).ring 1
        ∧ ¬∀ e ∈ tr, Accounted vhostRxQidx e := by
  have hcheck : (netMachine vhostRxQidx).check (.pages 0 overrunDescs)
      [.guest 0x7f0000001002 [1, 0], .rx (fun _ => ⟨[], .replicate 24 7, 24⟩) 1]
      (fun tr t => t.lag vhostRxQidx != NetSys.lag (.pages 0 overrunDescs) vhostRxQidx
        && (t.mem.used ((pagesDev 0).queue vhostRxQidx).used).ring 1
          != ((NetSys.pages 0 overrunDescs).mem.used ((pagesDev 0).queue vhostRxQidx).used).ring 1
        && tr.any (fun e => e.act.queue vhostRxQidx == some vhostRxQidx
          && (e.post.dev.queue vhostRxQidx).used == (e.pre.dev.queue vhostRxQidx).used
          && e.post.lag vhostRxQidx != e.pre.lag vhostRxQidx)) = true := by
    decide +kernel
  rcases Machine.exists_run_of_check hcheck with ⟨tr, t, hrun, _, htest⟩
  simp only [Bool.and_eq_true, List.any_eq_true, beq_iff_eq, bne_iff_ne] at htest
  rcases htest with ⟨⟨hlag, hring⟩, e, he, ⟨hqueue, hused⟩, hmoved⟩
  refine ⟨_, tr, t, serving_pages 0 overrunDescs, hrun, hlag, hring, ?_⟩
  intro hall
  rcases (hall e he).call _ hqueue with ⟨burst, _, hgives⟩
  exact hmoved (hgives.lag hused)

end Vhost
