import DpdkLearning.Lib.Chain
import DpdkLearning.Lib.Circular
import DpdkLearning.Vring.Impl

/-!
This module contains where the descriptors of the ring are while it runs as it should, and that its
operations keep it so.
-/

open Lib

namespace VirtioTest

variable {π : Type} {n freed : Nat} {heads : List Nat} {pkts : List π} {v v' : Vring π} {out : Out π}

/--
The chain of length `free_num` from `free_head` along `next`.
-/
def Vring.freeList (v : Vring π) : List Nat :=
  chain (fun i => (v.vrDesc i).next) v.freeHead v.freeNum

/--
The ring after the packets `pkts` have been put into it, in the descriptors `heads`. Those before
`last_avail_idx` have been fetched, the first `freed` of them are free again, and the rest are outside the
free list.
-/
structure Sound (n : Nat) (heads : List Nat) (pkts : List π) (freed : Nat) (v : Vring π) : Prop where
  pos : 0 < n
  ringSize : v.ringSize = n
  availIdx : v.availIdx = heads.length
  length : pkts.length = heads.length
  fetchedLe : v.lastAvailIdx ≤ heads.length
  freedLe : freed ≤ v.lastAvailIdx
  avail : Circular v.availRing n 0 heads
  used : Circular v.usedRing n 0 (heads.take v.lastAvailIdx)
  usedIdx : v.usedIdx = v.lastAvailIdx % n
  lastUsed : v.lastUsedIndex = freed % n
  places : (v.freeList ++ heads.drop freed).Perm (List.range n)
  pending : v.loopFlag = false → heads.length < v.lastAvailIdx + n
  flagged : v.loopFlag = true → v.lastAvailIdx < heads.length
  addrs : ∀ j head pkt, heads[j]? = some head → pkts[j]? = some pkt → v.lastAvailIdx ≤ j
    → (v.vrDesc head).addr = some pkt
  flags : ∀ i, (v.vrDesc i).flag = 0

theorem sound_new (h : 0 < n) : Sound n [] ([] : List π) 0 (.new n) where
  pos := h
  ringSize := rfl
  availIdx := rfl
  length := rfl
  fetchedLe := Nat.le_refl 0
  freedLe := Nat.le_refl 0
  avail := .nil
  used := .nil
  usedIdx := (Nat.zero_mod n).symm
  lastUsed := (Nat.zero_mod n).symm
  places := by
    have hchain : ∀ k head, chain (· + 1) head k = List.range' head k := by
      intro k
      induction k with
      | zero => simp [chain]
      | succ k ih => simp [chain, ih, List.range'_succ]
    rw [List.drop_nil, List.append_nil, List.range_eq_range']
    exact .of_eq (hchain n 0)
  pending _ := by simpa [Vring.new]
  flagged := nofun
  addrs := by simp
  flags _ := rfl

namespace Sound

theorem freeNum_eq (h : Sound n heads pkts freed v) : v.freeNum + (heads.length - freed) = n := by
  have hlen := h.places.length_eq
  rw [List.length_append, Vring.freeList, length_chain, List.length_drop, List.length_range] at hlen
  exact hlen

theorem nodup (h : Sound n heads pkts freed v) : (v.freeList ++ heads.drop freed).Nodup :=
  h.places.nodup_iff.mpr List.nodup_range

theorem lt_of_mem (h : Sound n heads pkts freed v) {head : Nat} (hmem : head ∈ heads.drop freed)
    : head < n := by
  rw [← List.mem_range, ← h.places.mem_iff]
  exact List.mem_append_right _ hmem

end Sound

@[simp]
theorem next_setAddr (v : Vring π) (i : Nat) (pkt : π) (j : Nat)
    : ((v.setAddr i pkt).vrDesc j).next = (v.vrDesc j).next := by
  unfold Vring.setAddr
  dsimp only
  split <;> rfl

@[simp]
theorem flag_setAddr (v : Vring π) (i : Nat) (pkt : π) (j : Nat)
    : ((v.setAddr i pkt).vrDesc j).flag = (v.vrDesc j).flag := by
  unfold Vring.setAddr
  dsimp only
  split <;> rfl

theorem addr_setAddr_self (v : Vring π) (i : Nat) (pkt : π)
    : ((v.setAddr i pkt).vrDesc i).addr = some pkt := by
  simp [Vring.setAddr]

theorem addr_setAddr_ne (v : Vring π) {i j : Nat} (pkt : π) (h : j ≠ i)
    : ((v.setAddr i pkt).vrDesc j).addr = (v.vrDesc j).addr := by
  simp [Vring.setAddr, h]

/--
The ring after a put that found room.
-/
def Vring.afterPut (v : Vring π) (pkt : π) : Vring π :=
  { v.setAddr v.freeHead pkt with
    availRing := fun j => if j = v.availIdx % v.ringSize then v.freeHead else v.availRing j
    availIdx := v.availIdx + 1
    freeNum := v.freeNum - 1
    freeHead := (v.vrDesc v.freeHead).next
    loopFlag := decide (v.freeNum - 1 = 0) }

theorem putRing_room (hfree : v.freeNum > 0) (hflag : v.loopFlag = false) (hhead : v.freeHead < v.ringSize)
    (pkt : π)
    : v.putRing pkt = .ok (v.afterPut pkt, { (Out.quiet : Out π) with accepted := [v.freeHead] }) := by
  unfold Vring.putRing Vring.afterPut
  rw [if_pos ⟨hfree, hflag⟩, if_pos hhead]
  dsimp only
  split
  . next hlast =>
    change v.freeNum - 1 = 0 at hlast
    simp [hlast, Vring.setAddr]
  . next hlast =>
    change ¬v.freeNum - 1 = 0 at hlast
    simp [hlast, hflag, Vring.setAddr]

theorem freeList_cons (h : v.freeNum > 0) (pkt : π)
    : v.freeList = v.freeHead :: (v.afterPut pkt).freeList := by
  have hk : v.freeNum = (v.freeNum - 1) + 1 := by omega
  unfold Vring.freeList
  rw [hk, chain]
  simp [Vring.afterPut]

/-- A put takes the head of the free list. -/
theorem Sound.afterPut (h : Sound n heads pkts freed v) (hfree : v.freeNum > 0) (pkt : π)
    : Sound n (heads ++ [v.freeHead]) (pkts ++ [pkt]) freed (v.afterPut pkt) := by
  have hlist := freeList_cons hfree pkt
  have hnum := h.freeNum_eq
  have hpos := h.pos
  have hfetched := h.fetchedLe
  have hfreed := h.freedLe
  have hlast : (v.afterPut pkt).lastAvailIdx = v.lastAvailIdx := rfl
  constructor
  . exact h.pos
  . exact h.ringSize
  . change v.availIdx + 1 = _
    rw [h.availIdx, List.length_append, List.length_singleton]
  . rw [List.length_append, List.length_append, h.length, List.length_singleton, List.length_singleton]
  . rw [hlast, List.length_append]
    omega
  . exact h.freedLe
  . apply h.avail.push
    . simp [Vring.afterPut, h.availIdx, h.ringSize]
    . intro i hi
      rw [Nat.zero_add] at hi
      simp [Vring.afterPut, h.availIdx, h.ringSize, hi]
  . rw [hlast, List.take_append_of_le_length h.fetchedLe]
    exact h.used
  . exact h.usedIdx
  . exact h.lastUsed
  . have hplaces := h.places
    rw [hlist, List.cons_append] at hplaces
    rw [List.drop_append_of_le_length (by omega), ← List.append_assoc]
    exact (List.perm_append_singleton _ _).trans hplaces
  . intro hflag
    have hmore : v.freeNum - 1 ≠ 0 := of_decide_eq_false hflag
    rw [hlast, List.length_append, List.length_singleton]
    omega
  . intro _
    rw [hlast, List.length_append, List.length_singleton]
    omega
  . intro j head pkt' hhead hpkt' hj
    rw [hlast] at hj
    change ((v.setAddr v.freeHead pkt).vrDesc head).addr = some pkt'
    by_cases heq : j = heads.length
    . subst heq
      rw [List.getElem?_concat_length] at hhead
      rw [← h.length, List.getElem?_concat_length] at hpkt'
      cases hhead
      cases hpkt'
      exact addr_setAddr_self v _ pkt
    . have hlt : j < heads.length := by
        have := (List.getElem?_eq_some_iff.mp hhead).1
        rw [List.length_append, List.length_singleton] at this
        omega
      rw [List.getElem?_append_left hlt] at hhead
      rw [List.getElem?_append_left (by rw [h.length]; exact hlt)] at hpkt'
      -- The head of the free list is not one of the heads outside it.
      have hmem : head ∈ heads.drop freed := by
        rw [List.mem_iff_getElem?]
        refine ⟨j - freed, ?_⟩
        rw [List.getElem?_drop, Nat.add_sub_cancel' (by omega), hhead]
      rw [addr_setAddr_ne]
      . exact h.addrs j head pkt' hhead hpkt' hj
      . have hnodup := h.nodup
        rw [hlist, List.cons_append, List.nodup_cons] at hnodup
        rintro rfl
        exact hnodup.1 (List.mem_append_right _ hmem)
  . intro i
    change ((v.setAddr v.freeHead pkt).vrDesc i).flag = 0
    rw [flag_setAddr]
    exact h.flags i

theorem freeHead_lt (h : Sound n heads pkts freed v) (hfree : v.freeNum > 0) (pkt : π)
    : v.freeHead < v.ringSize := by
  rw [h.ringSize, ← List.mem_range, ← h.places.mem_iff, freeList_cons hfree pkt]
  exact List.mem_cons_self

/-- What a put does to a ring that is sound. -/
theorem putRing_sound (h : Sound n heads pkts freed v) (pkt : π)
    : (¬(v.freeNum > 0 ∧ v.loopFlag = false) ∧ v.putRing pkt = .ok (v, .quiet))
      ∨ (v.freeNum > 0 ∧ v.loopFlag = false
        ∧ Sound n (heads ++ [v.freeHead]) (pkts ++ [pkt]) freed (v.afterPut pkt)
        ∧ v.putRing pkt
          = .ok (v.afterPut pkt, { (Out.quiet : Out π) with accepted := [v.freeHead] })) := by
  by_cases hroom : v.freeNum > 0 ∧ v.loopFlag = false
  . right
    exact ⟨hroom.1, hroom.2, h.afterPut hroom.1 pkt,
      putRing_room hroom.1 hroom.2 (freeHead_lt h hroom.1 pkt) pkt⟩
  . left
    refine ⟨hroom, ?_⟩
    rw [Vring.putRing, if_neg hroom]

theorem getRingLoop_ok {i start : Nat} {log hs : List Nat}
    (hread : ∀ j head, hs[j]? = some head
      → v.availRing ((v.lastAvailIdx + (i + j)) % v.ringSize) = head ∧ head < v.ringSize)
    (hused : Circular v.usedRing v.ringSize start log)
    (hidx : v.usedIdx = (start + log.length) % v.ringSize)
    : ∃ ring, v.getRingLoop i hs.length = .ok (hs.map (fun head => (v.vrDesc head).addr), hs,
          { v with
            usedRing := ring
            usedIdx := (start + (log ++ hs).length) % v.ringSize })
        ∧ Circular ring v.ringSize start (log ++ hs) := by
  -- The used ring takes the heads behind those that it has.
  induction hs generalizing v i log with
  | nil =>
    refine ⟨v.usedRing, ?_, ?_⟩
    . rw [List.append_nil, ← hidx]
      rfl
    . rwa [List.append_nil]
  | cons head hs ih =>
    rcases hread 0 head rfl with ⟨hslot, hlt⟩
    rw [Nat.add_zero] at hslot
    have hnext : (v.usedIdx + 1) % v.ringSize = (start + (log ++ [head]).length) % v.ringSize := by
      rw [hidx, List.length_append, List.length_singleton, Nat.mod_add_mod, Nat.add_assoc]
    have hpush : Circular (fun j => if j = v.usedIdx % v.ringSize then head else v.usedRing j)
        v.ringSize start (log ++ [head]) := by
      have hmod : v.usedIdx % v.ringSize = (start + log.length) % v.ringSize := by
        rw [hidx, Nat.mod_mod]
      apply hused.push
      . rw [hmod, if_pos rfl]
      . intro j hj
        rw [hmod, if_neg hj]
    have hrest : ∀ j head', hs[j]? = some head'
        → v.availRing ((v.lastAvailIdx + (i + 1 + j)) % v.ringSize) = head' ∧ head' < v.ringSize := by
      intro j head' hj
      have := hread (j + 1) head' (by simpa using hj)
      rwa [show i + (j + 1) = i + 1 + j by omega] at this
    rcases @ih { v with
        usedRing := fun j => if j = v.usedIdx % v.ringSize then head else v.usedRing j
        usedIdx := (v.usedIdx + 1) % v.ringSize } (i + 1) (log ++ [head]) hrest hpush hnext
      with ⟨ring, hloop, hring⟩
    refine ⟨ring, ?_, by rwa [List.append_cons]⟩
    rw [List.length_cons, Vring.getRingLoop, List.append_cons log head hs]
    dsimp only at hloop ⊢
    rw [hslot, if_pos hlt, hloop]
    rfl

theorem Sound.length_pending (h : Sound n heads pkts freed v)
    (hfull : v.loopFlag = true → heads.length = v.lastAvailIdx + n)
    : (if v.loopFlag then v.ringSize else v.distance v.availIdx v.lastAvailIdx)
        = (heads.drop v.lastAvailIdx).length := by
  have hfetched := h.fetchedLe
  have hpos := h.pos
  rw [List.length_drop, h.ringSize]
  cases hflag : v.loopFlag with
  | true =>
    have := hfull hflag
    simp only [if_true]
    omega
  | false =>
    have := h.pending hflag
    simp only [Bool.false_eq_true, if_false, Vring.distance, h.ringSize, h.availIdx]
    rw [Int.emod_eq_of_lt] <;> omega

theorem Sound.availRing_pending (h : Sound n heads pkts freed v) {j head : Nat}
    (hj : (heads.drop v.lastAvailIdx)[j]? = some head)
    : v.availRing ((v.lastAvailIdx + (0 + j)) % v.ringSize) = head ∧ head < v.ringSize := by
  have hnum := h.freeNum_eq
  have hfetched := h.fetchedLe
  have hfreed := h.freedLe
  have hmem : head ∈ heads.drop freed := by
    rw [List.mem_iff_getElem?]
    refine ⟨v.lastAvailIdx - freed + j, ?_⟩
    rw [List.getElem?_drop] at hj ⊢
    rw [← hj]
    congr 1
    omega
  rw [List.getElem?_drop] at hj
  have hring := h.avail _ head hj (by omega)
  rw [h.ringSize]
  refine ⟨?_, h.lt_of_mem hmem⟩
  rw [← hring]
  congr 2
  omega

theorem Sound.map_addr_pending (h : Sound n heads pkts freed v)
    : (heads.drop v.lastAvailIdx).map (fun head => (v.vrDesc head).addr)
        = (pkts.drop v.lastAvailIdx).map some := by
  apply List.ext_getElem?
  intro j
  rw [List.getElem?_map, List.getElem?_map, List.getElem?_drop, List.getElem?_drop]
  cases hhead : heads[v.lastAvailIdx + j]? with
  | none =>
    have hpkt : pkts[v.lastAvailIdx + j]? = none := by
      rw [List.getElem?_eq_none_iff] at hhead ⊢
      rw [h.length]
      exact hhead
    rw [hpkt]
    rfl
  | some head =>
    have hlt : v.lastAvailIdx + j < pkts.length := by
      rw [h.length]
      exact (List.getElem?_eq_some_iff.mp hhead).1
    rw [List.getElem?_eq_getElem hlt, Option.map_some, Option.map_some,
      h.addrs _ head _ hhead (List.getElem?_eq_getElem hlt) (by omega)]

/-- All heads are in the used ring then. -/
theorem Sound.afterGet (h : Sound n heads pkts freed v) (hempty : v.freeNum < v.ringSize) {ring : Nat → Nat}
    (hring : Circular ring v.ringSize 0 heads)
    : Sound n heads pkts freed { v with
        usedRing := ring
        usedIdx := (0 + heads.length) % v.ringSize
        lastAvailIdx := v.availIdx
        loopFlag := false } := by
  have hnum := h.freeNum_eq
  have hfetched := h.fetchedLe
  have hfreed := h.freedLe
  rw [h.ringSize] at hempty hring
  constructor
  . exact h.pos
  . exact h.ringSize
  . exact h.availIdx
  . exact h.length
  . exact Nat.le_of_eq h.availIdx
  . dsimp only
    rw [h.availIdx]
    omega
  . exact h.avail
  . dsimp only
    rwa [h.availIdx, List.take_length]
  . dsimp only
    rw [h.availIdx, Nat.zero_add, h.ringSize]
  . exact h.lastUsed
  . exact h.places
  . intro _
    dsimp only
    rw [h.availIdx]
    omega
  . intro hflag
    contradiction
  . intro j head pkt hhead hpkt hj
    have := (List.getElem?_eq_some_iff.mp hhead).1
    dsimp only at hj
    rw [h.availIdx] at hj
    omega
  . exact h.flags

/-- What a call fetches, when the ring is as full as its flag says. -/
theorem getRing_sound (h : Sound n heads pkts freed v)
    (hfull : v.loopFlag = true → heads.length = v.lastAvailIdx + n)
    : ∃ v' out, v.getRing = .ok (v', out) ∧ out.accepted = [] ∧ out.detached = []
        ∧ out.fetched = heads.drop v.lastAvailIdx
        ∧ out.pkts.getD [] = (pkts.drop v.lastAvailIdx).map some
        ∧ v'.lastAvailIdx = heads.length ∧ v'.loopFlag = false
        ∧ Sound n heads pkts freed v' := by
  have hnum := h.freeNum_eq
  have hfetched := h.fetchedLe
  have hfreed := h.freedLe
  have hpos := h.pos
  unfold Vring.getRing
  by_cases hempty : v.freeNum < v.ringSize
  . have hread : ∀ j head, (heads.drop v.lastAvailIdx)[j]? = some head
        → v.availRing ((v.lastAvailIdx + (0 + j)) % v.ringSize) = head ∧ head < v.ringSize :=
      fun j head hj => h.availRing_pending hj
    have hused : Circular v.usedRing v.ringSize 0 (heads.take v.lastAvailIdx) := by
      rw [h.ringSize]
      exact h.used
    have hidx : v.usedIdx = (0 + (heads.take v.lastAvailIdx).length) % v.ringSize := by
      rw [h.ringSize, h.usedIdx, List.length_take, Nat.min_eq_left hfetched, Nat.zero_add]
    rcases getRingLoop_ok hread hused hidx with ⟨ring, hloop, hring⟩
    rw [List.take_append_drop] at hloop hring
    rw [if_pos hempty, h.length_pending hfull]
    dsimp only
    rw [hloop]
    exact ⟨_, _, rfl, rfl, rfl, rfl, h.map_addr_pending, h.availIdx, rfl, h.afterGet hempty hring⟩
  -- With all descriptors free there is nothing to fetch, and the flag is not set.
  . rw [h.ringSize] at hempty
    have hall : heads.length = v.lastAvailIdx := by omega
    have hflag : v.loopFlag = false := by
      cases hflag : v.loopFlag with
      | false => rfl
      | true =>
        have := h.flagged hflag
        omega
    rw [h.ringSize, if_neg hempty]
    refine ⟨v, .quiet, rfl, rfl, rfl, ?_, ?_, hall.symm, hflag, h⟩
    . rw [← hall, List.drop_length]
      rfl
    . rw [← hall, ← h.length, List.drop_length]
      rfl

/--
The links change so that the given descriptors are in front of the free list.
-/
structure Detached (hs : List Nat) (v v' : Vring π) : Prop where
  freeList : v'.freeList = hs.reverse ++ v.freeList
  freeNum : v'.freeNum = v.freeNum + hs.length
  rest : v' = { v with vrDesc := v'.vrDesc, freeNum := v'.freeNum, freeHead := v'.freeHead }
  addr : ∀ i, (v'.vrDesc i).addr = (v.vrDesc i).addr
  flags : ∀ i, (v'.vrDesc i).flag = (v.vrDesc i).flag

theorem detachBuf_ok {head : Nat} (hlt : head < v.ringSize) (hnew : head ∉ v.freeList)
    (hflag : (v.vrDesc head).flag = 0) : ∃ v', v.detachBuf head = .ok v' ∧ Detached [head] v v' := by
  refine ⟨{ v.setNext head v.freeHead with freeNum := v.freeNum + 1, freeHead := head }, ?_, ?_⟩
  . unfold Vring.detachBuf
    rw [if_pos hlt, if_neg (by rw [hflag]; decide)]
    dsimp only
    rw [if_pos hlt]
    rfl
  -- The descriptor is linked in front of the free list.
  . have hlinks : (fun j => ((v.setNext head v.freeHead).vrDesc j).next)
        = fun j => if j = head then v.freeHead else (v.vrDesc j).next := by
      funext j
      unfold Vring.setNext
      dsimp only
      split <;> rfl
    constructor
    . unfold Vring.freeList
      dsimp only
      rw [hlinks, chain_push hnew]
      rfl
    . rfl
    . rfl
    . intro i
      unfold Vring.setNext
      dsimp only
      split <;> rfl
    . intro i
      unfold Vring.setNext
      dsimp only
      split <;> rfl

theorem detachLoop_ok {i : Nat} {hs : List Nat}
    (hread : ∀ j head, hs[j]? = some head
      → v.usedRing ((v.lastUsedIndex + (i + j)) % v.ringSize) = head ∧ head < v.ringSize)
    (hnodup : (hs ++ v.freeList).Nodup) (hflags : ∀ i, (v.vrDesc i).flag = 0)
    : ∃ v', v.detachLoop i hs.length = .ok (hs, v') ∧ Detached hs v v' := by
  induction hs generalizing v i with
  | nil => exact ⟨v, rfl, rfl, rfl, rfl, fun _ => rfl, fun _ => rfl⟩
  | cons head hs ih =>
    rcases hread 0 head rfl with ⟨hslot, hlt⟩
    rw [Nat.add_zero] at hslot
    rw [List.cons_append, List.nodup_cons, List.mem_append, not_or] at hnodup
    rcases detachBuf_ok hlt hnodup.1.2 (hflags head) with ⟨v1, hdetach, hv1⟩
    have hsize : v1.ringSize = v.ringSize := by rw [hv1.rest]
    have hlast : v1.lastUsedIndex = v.lastUsedIndex := by rw [hv1.rest]
    have hring : v1.usedRing = v.usedRing := by rw [hv1.rest]
    have hrest : ∀ j head', hs[j]? = some head'
        → v1.usedRing ((v1.lastUsedIndex + (i + 1 + j)) % v1.ringSize) = head'
          ∧ head' < v1.ringSize := by
      intro j head' hj
      have := hread (j + 1) head' (by simpa using hj)
      rwa [show i + (j + 1) = i + 1 + j by omega, ← hsize, ← hlast, ← hring] at this
    -- The descriptor goes from the heads to the front of the free list.
    have hnodup1 : (hs ++ v1.freeList).Nodup := by
      rw [hv1.freeList, List.reverse_singleton, List.singleton_append]
      apply (List.perm_middle.nodup_iff).mpr
      rw [List.nodup_cons, List.mem_append, not_or]
      exact hnodup
    rcases ih hrest hnodup1 (fun i => (hv1.flags i).trans (hflags i)) with ⟨v', hloop, hv'⟩
    refine ⟨v', ?_, ?_⟩
    . rw [List.length_cons, Vring.detachLoop]
      rw [hslot, hdetach]
      dsimp only
      rw [hloop]
    . constructor
      . rw [hv'.freeList, hv1.freeList]
        simp
      . rw [hv'.freeNum, hv1.freeNum, List.length_singleton, List.length_cons]
        omega
      . rw [hv'.rest, hv1.rest]
      . intro i
        rw [hv'.addr, hv1.addr]
      . intro i
        rw [hv'.flags, hv1.flags]

theorem distance_mod (v : Vring π) {i j : Nat} (h : j ≤ i)
    : v.distance (i % v.ringSize) (j % v.ringSize) = (i - j) % v.ringSize := by
  unfold Vring.distance
  rw [Int.natCast_mod, Int.natCast_mod, ← Int.sub_emod, ← Int.natCast_sub h, ← Int.natCast_mod,
    Int.toNat_natCast]

section Reclaim

variable {hs : List Nat}

theorem Sound.split (h : Sound n heads pkts freed v)
    : heads.drop freed = (heads.take v.lastAvailIdx).drop freed ++ heads.drop v.lastAvailIdx := by
  have hfetched := h.fetchedLe
  have hfreed := h.freedLe
  rw [← List.drop_append_of_le_length, List.take_append_drop]
  rw [List.length_take]
  omega

theorem Sound.length_used (h : Sound n heads pkts freed v)
    : ((heads.take v.lastAvailIdx).drop freed).length = v.lastAvailIdx - freed := by
  rw [List.length_drop, List.length_take, Nat.min_eq_left h.fetchedLe]

/-- The test for a whole lap of the used ring is exact. -/
theorem Sound.lap_iff (h : Sound n heads pkts freed v)
    : (v.freeNum = 0 ∧ v.usedIdx = v.lastUsedIndex ∧ v.loopFlag = false)
        ↔ v.lastAvailIdx - freed = n := by
  have hnum := h.freeNum_eq
  have hfetched := h.fetchedLe
  have hfreed := h.freedLe
  rw [h.usedIdx, h.lastUsed]
  constructor
  . rintro ⟨hzero, hmod, hflag⟩
    have hpending := h.pending hflag
    have hdvd : n ∣ v.lastAvailIdx - freed := (Nat.modEq_iff_dvd' hfreed).mp hmod.symm
    have hle := Nat.le_of_dvd (by omega) hdvd
    omega
  . intro hlap
    refine ⟨by omega, ?_, ?_⟩
    . rw [show v.lastAvailIdx = freed + n by omega, Nat.add_mod_right]
    . cases hflag : v.loopFlag with
      | false => rfl
      | true =>
        have := h.flagged hflag
        omega

theorem Sound.afterDetached (h : Sound n heads pkts freed v)
    (hv' : Detached ((heads.take v.lastAvailIdx).drop freed) v v')
    : Sound n heads pkts v.lastAvailIdx { v' with lastUsedIndex := v.usedIdx } := by
  have hrest := hv'.rest
  -- What is detached goes from the heads to the free list.
  have hplaces : (v'.freeList ++ heads.drop v.lastAvailIdx).Perm (List.range n) := by
    refine .trans ?_ h.places
    rw [hv'.freeList, h.split, ← List.append_assoc]
    apply List.Perm.append_right
    exact ((List.reverse_perm _).append_right _).trans List.perm_append_comm
  have haddr := hv'.addr
  have hflags := hv'.flags
  generalize v'.vrDesc = desc at *
  generalize v'.freeNum = num at *
  generalize v'.freeHead = head at *
  subst hrest
  constructor
  . exact h.pos
  . exact h.ringSize
  . exact h.availIdx
  . exact h.length
  . exact h.fetchedLe
  . exact Nat.le_refl _
  . exact h.avail
  . exact h.used
  . exact h.usedIdx
  . exact h.usedIdx
  . exact hplaces
  . exact h.pending
  . exact h.flagged
  . intro j head' pkt hhead hpkt hj
    dsimp only
    rw [haddr]
    exact h.addrs j head' pkt hhead hpkt hj
  . intro i
    dsimp only
    rw [hflags]
    exact h.flags i

/-- A reclaim gets back what was fetched and is not free yet, be it a whole lap or nothing. -/
theorem freeUsedIndex_sound (h : Sound n heads pkts freed v)
    : ∃ v' out, v.freeUsedIndex = .ok (v', out) ∧ out.accepted = [] ∧ out.fetched = [] ∧ out.pkts = none
        ∧ out.detached = (heads.take v.lastAvailIdx).drop freed
        ∧ v'.lastAvailIdx = v.lastAvailIdx ∧ v'.loopFlag = v.loopFlag
        ∧ Sound n heads pkts v.lastAvailIdx v' := by
  have hnum := h.freeNum_eq
  have hfetched := h.fetchedLe
  have hfreed := h.freedLe
  have hpos := h.pos
  have hread : ∀ j head, ((heads.take v.lastAvailIdx).drop freed)[j]? = some head
      → v.usedRing ((v.lastUsedIndex + (0 + j)) % v.ringSize) = head ∧ head < v.ringSize := by
    intro j head hj
    have hmem : head ∈ heads.drop freed := by
      rw [h.split]
      exact List.mem_append_left _ (List.mem_of_getElem? hj)
    rw [h.ringSize]
    refine ⟨?_, h.lt_of_mem hmem⟩
    rw [List.getElem?_drop] at hj
    have hring := h.used _ head hj (by rw [List.length_take]; omega)
    rw [← hring, h.lastUsed, Nat.mod_add_mod]
    congr 2
    omega
  have hnodup : ((heads.take v.lastAvailIdx).drop freed ++ v.freeList).Nodup := by
    have := h.nodup
    rw [h.split, ← List.append_assoc] at this
    exact (List.perm_append_comm.nodup_iff).mp (List.nodup_append.mp this).1
  rcases detachLoop_ok hread hnodup h.flags with ⟨v1, hloop, hv1⟩
  rw [h.length_used] at hloop
  have hsound := h.afterDetached hv1
  have hrest := hv1.rest
  have hdistance : v.distance v.usedIdx v.lastUsedIndex = (v.lastAvailIdx - freed) % n := by
    rw [h.usedIdx, h.lastUsed, ← h.ringSize]
    exact distance_mod v hfreed
  unfold Vring.freeUsedIndex
  -- The indices are the same after a whole lap and after nothing, which the test for a lap tells apart.
  by_cases hlap : v.lastAvailIdx - freed = n
  . have hzero : v1.distance v.usedIdx v1.lastUsedIndex = 0 := by
      have hsame : v1.distance v.usedIdx v1.lastUsedIndex = v.distance v.usedIdx v.lastUsedIndex := by
        rw [hrest]
        rfl
      rw [hsame, hdistance, hlap, Nat.mod_self]
    have hloop' : v.detachLoop 0 v.ringSize = .ok ((heads.take v.lastAvailIdx).drop freed, v1) := by
      rw [h.ringSize, ← hlap, hloop]
    dsimp only
    rw [if_pos (h.lap_iff.mpr hlap), hloop']
    dsimp only
    rw [hzero]
    refine ⟨_, _, rfl, rfl, rfl, rfl, List.append_nil _, ?_, ?_, hsound⟩
    . rw [hrest]
    . rw [hrest]
  . have hcount : v.distance v.usedIdx v.lastUsedIndex = v.lastAvailIdx - freed := by
      rw [hdistance]
      exact Nat.mod_eq_of_lt (by omega)
    dsimp only
    rw [if_neg (fun hlap' => hlap (h.lap_iff.mp hlap'))]
    dsimp only [Vring.detachLoop]
    rw [hcount, hloop]
    refine ⟨_, _, rfl, rfl, rfl, rfl, List.nil_append _, ?_, ?_, hsound⟩
    . rw [hrest]
    . rw [hrest]

end Reclaim

end VirtioTest
