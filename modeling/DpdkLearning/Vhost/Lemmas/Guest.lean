import DpdkLearning.Vhost.Impl.Guest
import DpdkLearning.Vhost.Lemmas.Queue

/-!
This module contains how the two indices of an avail ring and its slots stay in step with what the guest
has published and the backend has given back, however often they wrap.
-/

open Lib

namespace Vhost

variable {κ : Type} {qidx : Fin maxMultiQueue} {start : Nat} {s s' : QueueSys}

/--
The queue at `start` plus what has gone through it.
-/
structure InStep (qidx : Fin maxMultiQueue) (start : Nat) (s : QueueSys) : Prop where
  ready : Ready s.dev (s.dev.queue qidx)
  ring : Circular (s.mem.avail (s.dev.queue qidx).avail).ring (s.dev.queue qidx).num.toNat start s.published
  idx : (s.mem.avail (s.dev.queue qidx).avail).idx.toNat = (start + s.published.length) % 2 ^ 16
  last : (s.dev.queue qidx).lastUsedIdx.toNat = (start + s.consumed.length) % 2 ^ 32
  outstanding : s.published.length ≤ s.consumed.length + (s.dev.queue qidx).num.toNat

/--
The queue is set up and unused, with equal indices.
-/
structure Starts (qidx : Fin maxMultiQueue) (s : QueueSys) : Prop where
  ready : Ready s.dev (s.dev.queue qidx)
  idx : (s.mem.avail (s.dev.queue qidx).avail).idx = (s.dev.queue qidx).lastUsedIdx.toUInt16
  published : s.published = []
  consumed : s.consumed = []

theorem Starts.inStep (h : Starts qidx s) : InStep qidx (s.dev.queue qidx).lastUsedIdx.toNat s where
  ready := h.ready
  ring := by
    rw [h.published]
    exact .nil
  idx := by
    rw [h.idx, h.published]
    rfl
  last := by
    rw [h.consumed]
    exact (Nat.mod_eq_of_lt (s.dev.queue qidx).lastUsedIdx.toNat_lt).symm
  outstanding := by simp [h.published]

theorem InStep.publish (h : InStep qidx start s) (head : UInt16)
    (hroom : s.published.length < s.consumed.length + (s.dev.queue qidx).num.toNat)
    : InStep qidx start { s with
        mem := s.mem.publish (s.dev.queue qidx) head
        published := s.published ++ [head] } where
  ready := h.ready
  ring := by
    have hslot : (s.mem.avail (s.dev.queue qidx).avail).idx.toNat % (s.dev.queue qidx).num.toNat
        = (start + s.published.length) % (s.dev.queue qidx).num.toNat := by
      rw [h.idx, Nat.mod_mod_of_dvd _ h.ready.num.dvd]
    apply h.ring.push
    . simp [SharedMem.publish, hslot]
    . intro i hi
      simp only [SharedMem.publish, hslot, if_pos, if_neg hi]
  idx := by
    have hidx := h.idx
    simp only [SharedMem.publish, if_pos, List.length_append, List.length_singleton]
    rw [UInt16.toNat_add, hidx]
    change (_ + 1) % 2 ^ 16 = (start + (s.published.length + 1)) % 2 ^ 16
    omega
  last := h.last
  outstanding := by
    rw [List.length_append, List.length_singleton]
    exact hroom

section Put

variable {vq : Virtqueue} {mem : SharedMem} {elems : List VirtqUsedElem} {burst : Burst}

theorem moved_of_put (h : Put vq mem elems burst) (hlen : elems.length < 2 ^ 32)
    : (burst.vq.lastUsedIdx - vq.lastUsedIdx).toNat = elems.length := by
  rw [h.queue]
  dsimp only
  rw [UInt32.add_comm, UInt32.add_sub_cancel]
  exact Nat.mod_eq_of_lt hlen

theorem length_givenBack (h : Put vq mem elems burst) (hlen : elems.length < 2 ^ 32)
    : (givenBack vq burst.vq burst.mem).length = elems.length := by
  rw [givenBack, List.length_map, List.length_range, moved_of_put h hlen]

theorem givenBack_of_put (h : Put vq mem elems burst) (hlen : elems.length < 2 ^ 32)
    (hfit : elems.length ≤ vq.num.toNat)
    : givenBack vq burst.vq burst.mem = elems.map (fun e => e.id.toUInt16) := by
  rcases h.shared with ⟨mem1, hused, hmem⟩
  have hring : ∀ j, ((burst.mem.used vq.used).ring j) = (mem1.used vq.used).ring j := by
    intro j
    simp [hmem, SharedMem.addUsedIdx]
  rw [givenBack, moved_of_put h hlen]
  simp only [hring]
  conv_rhs => rw [← hused.read hfit, List.map_map]
  rfl

theorem InStep.put (h : InStep qidx start s) (hlen : elems.length < 2 ^ 32)
    (hput : Put (s.dev.queue qidx) s.mem elems burst)
    : InStep qidx start (s.afterCall qidx (.ok burst)) := by
  have havail : burst.mem.avail = s.mem.avail := by
    rcases hput.shared with ⟨mem1, hused, hmem⟩
    rw [hmem]
    exact hused.avail
  have hcount := length_givenBack hput hlen
  have hqueue := hput.queue
  have hready := h.ready
  have hring := h.ring
  have hidx := h.idx
  have hlast := h.last
  have houtstanding := h.outstanding
  unfold QueueSys.afterCall
  constructor
  . dsimp only
    rw [queue_setQueue, hqueue]
    exact ⟨hready.mem, hready.desc, hready.avail, hready.used, hready.num⟩
  . dsimp only
    rw [queue_setQueue, hqueue, havail]
    exact hring
  . dsimp only
    rw [queue_setQueue, hqueue, havail]
    exact hidx
  . dsimp only
    rw [queue_setQueue, List.length_append, hcount, hqueue]
    change ((s.dev.queue qidx).lastUsedIdx + UInt32.ofNat elems.length).toNat = _
    rw [UInt32.toNat_add, hlast]
    change (_ + elems.length % 2 ^ 32) % 2 ^ 32 = _
    omega
  . dsimp only
    rw [queue_setQueue, List.length_append, hcount, hqueue]
    dsimp only
    omega

end Put

/--
A queue of four descriptors.
-/
def Virtqueue.fourSlots (last : UInt32) : Virtqueue where
  desc := 0x10000
  avail := 0x20000
  used := 0x30000
  kickfd := 5
  callfd := 6
  num := 4
  lastUsedIdx := last

/--
All queues are like this, and unused.
-/
def QueueSys.unused (last : UInt32) : QueueSys where
  dev := { mem := some vhostUserMemZero, vq := .replicate maxMultiQueue (.fourSlots last) }
  mem :=
    { desc := fun _ _ => ⟨0x1000, 14, 0⟩
      avail := fun _ => ⟨last.toUInt16, fun _ => 0⟩
      used := fun _ => ⟨last.toUInt16, fun _ => ⟨0, 0⟩⟩
      bytes := fun _ => 0 }
  published := []
  consumed := []

theorem starts_unused (last : UInt32) : Starts qidx (.unused last) := by
  have hqueue : (QueueSys.unused last).dev.queue qidx = .fourSlots last := by
    simp [QueueSys.unused, VhostDev.queue]
  constructor
  . rw [hqueue]
    refine ⟨⟨vhostUserMemZero, rfl, by decide⟩, ?_, ?_, ?_, 2, ?_, ?_⟩
    all_goals simp [Virtqueue.fourSlots]
  . rw [hqueue]
    rfl
  . rfl
  . rfl

section Step

variable {allowed : VhostDev → κ → Bool} {call : VhostDev → SharedMem → κ → Except Misuse Burst}
  {act : QueueAct κ} {out : Option (Except Misuse Burst)}

theorem txMachine_step (s : QueueSys) (act : QueueAct TxCall)
    : txMachine.step s act = s.step vhostTxQidx
        (fun dev c => decide (c.npkts.toNat ≤ (dev.queue vhostTxQidx).num.toNat))
        (fun dev mem c => vhostTx c.newMbuf dev mem c.npkts) act := by
  rfl

theorem queueStep_cases (h : s.step qidx allowed call act = .ok (s', out))
    : (∃ head, act = .publish head ∧ out = none
          ∧ s.published.length < s.consumed.length + (s.dev.queue qidx).num.toNat
          ∧ s' = { s with
              mem := s.mem.publish (s.dev.queue qidx) head
              published := s.published ++ [head] })
      ∨ ∃ c, act = .call c ∧ out = some (call s.dev s.mem c) ∧ allowed s.dev c = true
          ∧ s' = s.afterCall qidx (call s.dev s.mem c) := by
  cases act with
  | publish head =>
    simp only [QueueSys.step] at h
    split at h
    . next hroom =>
      cases h
      exact .inl ⟨head, rfl, rfl, hroom, rfl⟩
    . contradiction
  | call c =>
    simp only [QueueSys.step] at h
    split at h
    . next hallowed =>
      cases h
      exact .inr ⟨c, rfl, rfl, hallowed, rfl⟩
    . contradiction

/-- Both machines keep a queue in step, whatever the calls do. -/
theorem inStep_of_step
    (hcall : ∀ dev mem c burst, Ready dev (dev.queue qidx) → call dev mem c = .ok burst
      → ∃ elems, elems.length < 2 ^ 32 ∧ Put (dev.queue qidx) mem elems burst)
    (h : InStep qidx start s) (hstep : s.step qidx allowed call act = .ok (s', out))
    : InStep qidx start s' := by
  rcases queueStep_cases hstep with ⟨head, _, _, hroom, rfl⟩ | ⟨c, _, _, _, rfl⟩
  . exact h.publish head hroom
  . cases hresult : call s.dev s.mem c with
    | error e => exact h
    | ok burst =>
      rcases hcall s.dev s.mem c burst h.ready hresult with ⟨elems, hlen, hput⟩
      exact h.put hlen hput

end Step

/-- As long as a reader is not ahead, the slots it looks at hold what was published. -/
theorem InStep.availHeads (h : InStep qidx start s) {n : Nat}
    (hn : s.consumed.length + n ≤ s.published.length)
    : availHeads (s.dev.queue qidx) s.mem n = (s.published.drop s.consumed.length).take n := by
  rw [← h.ring.read hn h.outstanding, Vhost.availHeads]
  apply List.map_congr_left
  intro i hi
  congr 1
  rw [h.last, Nat.add_mod, Nat.mod_mod_of_dvd _ h.ready.num.dvd_size, ← Nat.add_mod, Nat.add_assoc]

end Vhost
