import DpdkLearning.Stack.Lemmas.Nrecv
import DpdkLearning.Stack.Lemmas.Stream
import Mathlib.Algebra.Order.Ring.Int

/-!
This module contains what an established stream makes of the segments of its peer: what it stores in
the receive buffer against what it counts in `rcv_nxt` and acknowledges.
-/

open Lib

namespace NgStack

def hasPsh (m : Mbuf) : Bool :=
  hasFlag m.tcp.tcpFlags rteTcpPshFlag

def hasFin (m : Mbuf) : Bool :=
  hasFlag m.tcp.tcpFlags rteTcpFinFlag

/--
The length of the payload as `ng_tcp_handle_established` computes it, which may be negative.
-/
def paylen (m : Mbuf) : Int :=
  payloadlen m.tcp (tcplen m.ip)

/--
The bytes behind the headers of the segment.
-/
def payload (m : Mbuf) : List UInt8 :=
  payloadBytes m (paylen m).toNat

/--
The bytes the fragments hold for a reader.
-/
def bytesOf (frs : List NgTcpFragment) : List UInt8 :=
  frs.flatMap NgTcpFragment.bytes

theorem bytesOf_append (frs frs' : List NgTcpFragment)
    : bytesOf (frs ++ frs') = bytesOf frs ++ bytesOf frs' := by
  simp [bytesOf]

@[simp]
theorem length_payloadBytes (m : Mbuf) (n : Nat) : (payloadBytes m n).length = n := by
  simp [payloadBytes]

@[simp]
theorem length_payload (m : Mbuf) : (payload m).length = (paylen m).toNat := by
  simp [payload]

theorem toNat_hdrlen_le (tcphdr : RteTcpHdr) : (hdrlen tcphdr).toNat ≤ 15 := by
  have := tcphdr.dataOff.toNat_lt
  simp only [hdrlen, UInt8.toNat_shiftRight, UInt8.reduceToNat, Nat.reduceMod, Nat.shiftRight_eq_div_pow]
  omega

theorem paylen_bounds (m : Mbuf) : -80 ≤ paylen m ∧ paylen m ≤ 65515 := by
  have hlen := (ntohs m.ip.totalLength).toNat_lt
  have hhdr := toNat_hdrlen_le m.tcp
  unfold paylen payloadlen tcplen
  omega

theorem payloadlen_hdrlen (tcphdr : RteTcpHdr) : payloadlen tcphdr (hdrlen tcphdr).toNat ≤ 0 := by
  unfold payloadlen
  omega

theorem recvFragment_eq_none_iff (env : Env) (m : Mbuf) (n : Int)
    : recvFragment env m n = none
        ↔ env.rteMalloc 0 = false ∨ 0 < payloadlen m.tcp n ∧ env.rteMalloc 1 = false := by
  unfold recvFragment
  cases h0 : env.rteMalloc 0 with
  | false => simp
  | true =>
    by_cases hpos : 0 < payloadlen m.tcp n
    . cases h1 : env.rteMalloc 1 <;> simp [hpos]
    . simp [hpos]

theorem recvFragment_some {env : Env} {m : Mbuf} {n : Int} {f : NgTcpFragment}
    (h : recvFragment env m n = some f) (hlt : payloadlen m.tcp n < 2 ^ 32)
    : f.bytes = payloadBytes m (payloadlen m.tcp n).toNat
        ∧ f.length.toNat = (payloadlen m.tcp n).toNat := by
  unfold recvFragment at h
  dsimp at h
  split at h
  . contradiction
  . split at h
    . next hpos =>
      split at h
      . contradiction
      . rw [← Option.some.inj h]
        have hlen : (UInt32.ofNat (payloadlen m.tcp n).toNat).toNat = (payloadlen m.tcp n).toNat := by
          rw [UInt32.toNat_ofNat']
          apply Nat.mod_eq_of_lt
          omega
        refine ⟨?_, hlen⟩
        simp only [NgTcpFragment.bytes, Option.getD_some, hlen]
        rw [List.take_append_of_le_length (by simp), List.take_of_length_le (by simp)]
    . next hpos =>
      rw [← Option.some.inj h]
      have hzero : (payloadlen m.tcp n).toNat = 0 := by omega
      rw [hzero]
      exact ⟨rfl, rfl⟩

/--
What a segment with PSH appends to the receive buffer.
-/
def pshAppended (env : Env) (st : NgTcpStream) (m : Mbuf) : List NgTcpFragment :=
  if hasPsh m then appended env st.rcvItems.length m (tcplen m.ip) else []

/--
What a segment with FIN appends behind that.
-/
def finAppended (env : Env) (st : NgTcpStream) (m : Mbuf) : List NgTcpFragment :=
  if hasFin m then
    appended (env.after 3) (st.rcvItems.length + (pshAppended env st m).length) m (hdrlen m.tcp).toNat
  else
    []

/--
What a segment adds to `rcv_nxt` for its payload.
-/
def pshCount (m : Mbuf) : UInt32 :=
  if hasPsh m then UInt32.ofInt (paylen m) else 0

def finCount (m : Mbuf) : UInt32 :=
  if hasFin m then 1 else 0

theorem mem_enqueued {length : Nat} {f g : NgTcpFragment} (h : g ∈ enqueued length f) : g = f := by
  unfold enqueued at h
  split at h
  . rwa [List.mem_singleton] at h
  . contradiction

theorem bytesOf_enqueued (length : Nat) (f : NgTcpFragment)
    : bytesOf (enqueued length f) = if length < ringSize - 1 then f.bytes else [] := by
  unfold enqueued
  split <;> simp [bytesOf]

theorem length_of_mem_finAppended {env : Env} {st : NgTcpStream} {m : Mbuf} {f : NgTcpFragment}
    (h : f ∈ finAppended env st m) : f.length.toNat = 0 ∧ f.bytes = [] := by
  unfold finAppended appended at h
  split at h
  . split at h
    . contradiction
    . next g hg =>
      have hneg := payloadlen_hdrlen m.tcp
      rcases recvFragment_some hg (by omega) with ⟨hbytes, hlen⟩
      have hzero : (payloadlen m.tcp (hdrlen m.tcp).toNat).toNat = 0 := by omega
      rw [mem_enqueued h, hbytes, hlen, hzero]
      exact ⟨rfl, rfl⟩
  . contradiction

theorem bytesOf_finAppended (env : Env) (st : NgTcpStream) (m : Mbuf)
    : bytesOf (finAppended env st m) = [] := by
  unfold bytesOf
  rw [List.flatMap_eq_nil_iff]
  intro f hf
  exact (length_of_mem_finAppended hf).2

/--
The segment finds memory for its fragment and for its payload, and room in the receive buffer.
-/
def stores (env : Env) (st : NgTcpStream) : Bool :=
  env.rteMalloc 0 && env.rteMalloc 1 && decide (st.rcvItems.length < ringSize - 1)

theorem bytesOf_pshAppended (env : Env) (st : NgTcpStream) (m : Mbuf)
    : bytesOf (pshAppended env st m) = if hasPsh m && stores env st then payload m else [] := by
  have hlt := (paylen_bounds m).2
  unfold pshAppended
  cases hpsh : hasPsh m with
  | false => rfl
  | true =>
    dsimp
    unfold appended
    split
    . next hnone =>
      rw [recvFragment_eq_none_iff] at hnone
      have : stores env st = false := by
        rcases hnone with h0 | ⟨_, h1⟩
        . simp [stores, h0]
        . simp [stores, h1]
      rw [this]
      rfl
    . next f hf =>
      rcases recvFragment_some hf (by unfold paylen at hlt; omega) with ⟨hbytes, _⟩
      have hmalloc : recvFragment env m (tcplen m.ip) ≠ none := by simp [hf]
      rw [ne_eq, recvFragment_eq_none_iff, not_or, not_and, Bool.not_eq_false,
        Bool.not_eq_false] at hmalloc
      rw [bytesOf_enqueued, hbytes]
      by_cases hroom : st.rcvItems.length < ringSize - 1
      -- Without a payload no memory is asked for it, and nothing is missed if there is none.
      . by_cases hpos : 0 < paylen m
        . simp [stores, hmalloc.1, hmalloc.2 hpos, hroom, payload, paylen]
        . have hzero : (paylen m).toNat = 0 := by omega
          rw [payload, hzero, ← paylen, hzero]
          simp [payloadBytes]
      . simp [stores, hroom]

namespace SegmentHandled

variable {env : Env} {m : Mbuf} {st st' : NgTcpStream} {ep ep' : Option Eventpoll}

theorem rcvItems (h : SegmentHandled env m st ep st' ep')
    : st'.rcvItems = st.rcvItems ++ (pshAppended env st m ++ finAppended env st m) := by
  unfold finAppended pshAppended hasPsh hasFin
  cases h with
  | neither hpsh hfin => simp [hpsh, hfin]
  | psh hpsh hfin h _ _ => simp [hpsh, hfin, h.rcvItems]
  | fin hpsh hfin h _ _ =>
    have hitems := h.rcvItems
    simp only [NgTcpStream.rcvItems] at hitems
    simp [hpsh, hfin, NgTcpStream.rcvItems, hitems]
  | both hpsh hfin h1 h2 _ _ _ =>
    have hitems1 := h1.rcvItems
    have hitems2 := h2.rcvItems
    simp only [NgTcpStream.rcvItems] at hitems1 hitems2
    simp [hpsh, hfin, NgTcpStream.rcvItems, hitems1, hitems2]

theorem rcvNxt (h : SegmentHandled env m st ep st' ep')
    : st'.rcvNxt = st.rcvNxt + pshCount m + finCount m := by
  unfold pshCount finCount hasPsh hasFin paylen
  cases h with
  | neither hpsh hfin => simp [hpsh, hfin]
  | psh hpsh hfin h _ _ =>
    rcases h.stream with ⟨_, _, rfl⟩
    simp [hpsh, hfin]
  | fin hpsh hfin h _ _ =>
    rcases h.stream with ⟨_, _, rfl⟩
    simp [hpsh, hfin]
  | both hpsh hfin h1 h2 _ _ _ =>
    rcases h1.stream with ⟨_, _, rfl⟩
    rcases h2.stream with ⟨_, _, rfl⟩
    simp [hpsh, hfin]

end SegmentHandled

theorem Received.acks {env : Env} {m : Mbuf} {st st' : NgTcpStream} {tcplen n : Int}
    (h : Received env st m tcplen n st')
    : ∃ acks, st'.sndItems = st.sndItems ++ acks ∧ (acks.map (·.acknum)).Sublist [st'.rcvNxt]
        ∧ ∀ f ∈ acks, ∃ st1, f = ackFragment st1 m.tcp := by
  refine ⟨_, h.sndItems, ?_⟩
  unfold acked enqueued
  split
  . split
    . constructor
      . simp [ackFragment]
      . intro f hf
        exact ⟨_, List.mem_singleton.mp hf⟩
    . simp
  . simp

theorem SegmentHandled.acks {env : Env} {m : Mbuf} {st st' : NgTcpStream} {ep ep' : Option Eventpoll}
    (h : SegmentHandled env m st ep st' ep')
    : ∃ acks, st'.sndItems = st.sndItems ++ acks
        ∧ (acks.map (·.acknum)).Sublist ((if hasPsh m then [st.rcvNxt + pshCount m] else [])
          ++ (if hasFin m then [st.rcvNxt + pshCount m + 1] else []))
        ∧ ∀ f ∈ acks, ∃ st1, f = ackFragment st1 m.tcp := by
  have hnxt := h.rcvNxt
  unfold pshCount finCount hasPsh hasFin at hnxt
  unfold pshCount hasPsh hasFin
  cases h with
  | neither hpsh hfin => exact ⟨[], by simp⟩
  | psh hpsh hfin h _ _ =>
    rcases h.acks with ⟨acks, hitems, hnum, hacks⟩
    refine ⟨acks, hitems, ?_, hacks⟩
    rw [hnxt] at hnum
    simpa [hpsh, hfin] using hnum
  | fin hpsh hfin h _ _ =>
    rcases h.acks with ⟨acks, hitems, hnum, hacks⟩
    refine ⟨acks, hitems, ?_, hacks⟩
    rw [hnxt] at hnum
    simpa [hpsh, hfin] using hnum
  | both hpsh hfin h1 h2 _ _ _ =>
    rcases h1.acks with ⟨acks1, hitems1, hnum1, hacks1⟩
    rcases h2.acks with ⟨acks2, hitems2, hnum2, hacks2⟩
    refine ⟨acks1 ++ acks2, ?_, ?_, ?_⟩
    . have : st'.sndItems = NgTcpStream.sndItems _ ++ acks2 := hitems2
      rw [this, ← List.append_assoc, ← hitems1]
      rfl
    . rw [List.map_append]
      apply List.Sublist.append
      . rcases h1.stream with ⟨_, _, hst1⟩
        rw [hst1] at hnum1
        simpa [hpsh, paylen] using hnum1
      . rw [hnxt] at hnum2
        simpa [hpsh, hfin] using hnum2
    . intro f hf
      rw [List.mem_append] at hf
      exact hf.elim (hacks1 f) (hacks2 f)

/--
`rcv_nxt` and the acknowledgements queued count the payload bytes that really are in the receive
buffer, plus one for a FIN.
-/
structure CountsBytes (m : Mbuf) (st st' : NgTcpStream) : Prop where
  rcvNxt : st'.rcvNxt = st.rcvNxt
    + UInt32.ofNat ((bytesOf (st'.rcvItems.drop st.rcvItems.length)).length
      + if hasFin m then 1 else 0)
  acknums : ((st'.sndItems.drop st.sndItems.length).map (·.acknum)).Sublist
    ((if hasPsh m then
        [st.rcvNxt + UInt32.ofNat (bytesOf (st'.rcvItems.drop st.rcvItems.length)).length]
      else
        [])
    ++ (if hasFin m then [st'.rcvNxt] else []))
  forward : (st'.rcvNxt - st.rcvNxt).toNat < 2 ^ 31

/--
The segment has no PSH, or what it has for payload is none, or it is stored.
-/
def countsCond (env : Env) (st : NgTcpStream) (m : Mbuf) : Bool :=
  !hasPsh m || paylen m == 0 || (decide (0 < paylen m) && stores env st)

theorem ofInt_eq_ofNat_iff {p : Int} {n : Nat} (hp : -80 ≤ p ∧ p ≤ 65515) (hn : n ≤ 65515)
    : UInt32.ofInt p = UInt32.ofNat n ↔ p = n := by
  unfold UInt32.ofInt
  rw [← UInt32.toNat_inj, UInt32.toNat_ofNat', UInt32.toNat_ofNat']
  omega

theorem pshCount_eq_iff (env : Env) (st : NgTcpStream) (m : Mbuf)
    : pshCount m = UInt32.ofNat (bytesOf (pshAppended env st m)).length
        ↔ countsCond env st m = true := by
  have hbounds := paylen_bounds m
  rw [bytesOf_pshAppended]
  unfold pshCount countsCond
  cases hasPsh m with
  | false => simp
  | true =>
    cases hstores : stores env st with
    | false =>
      simp only [↓reduceIte, Bool.and_false, Bool.false_eq_true, List.length_nil, Bool.not_true,
        Bool.false_or, Bool.or_false, beq_iff_eq]
      rw [ofInt_eq_ofNat_iff hbounds (by omega)]
      rfl
    | true =>
      simp only [↓reduceIte, Bool.and_self, length_payload, Bool.not_true, Bool.false_or,
        Bool.and_true, Bool.or_eq_true, beq_iff_eq, decide_eq_true_eq]
      rw [ofInt_eq_ofNat_iff hbounds (by omega)]
      omega

theorem SegmentHandled.counts_iff {env : Env} {m : Mbuf} {st st' : NgTcpStream}
    {ep ep' : Option Eventpoll} (h : SegmentHandled env m st ep st' ep')
    : CountsBytes m st st' ↔ countsCond env st m = true := by
  have hbounds := paylen_bounds m
  have hnew : st'.rcvItems.drop st.rcvItems.length = pshAppended env st m ++ finAppended env st m := by
    rw [h.rcvItems, List.drop_left]
  -- The bytes of a segment are far fewer than 32 bits can count.
  have hlen : (bytesOf (st'.rcvItems.drop st.rcvItems.length)).length
      = (bytesOf (pshAppended env st m)).length := by
    rw [hnew, bytesOf_append, bytesOf_finAppended, List.append_nil]
  have hle : (bytesOf (pshAppended env st m)).length ≤ 65515 := by
    rw [bytesOf_pshAppended]
    split
    . rw [length_payload]
      omega
    . simp
  have hfin : UInt32.ofNat (if hasFin m then 1 else 0) = finCount m := by
    unfold finCount
    split <;> rfl
  rw [← pshCount_eq_iff]
  constructor
  . intro hcounts
    have hnxt := hcounts.rcvNxt
    rw [hlen, h.rcvNxt, UInt32.ofNat_add, hfin, ← UInt32.add_assoc, UInt32.add_left_inj,
      UInt32.add_right_inj] at hnxt
    exact hnxt
  . intro hcount
    have hnxt : st'.rcvNxt = st.rcvNxt + UInt32.ofNat ((bytesOf (pshAppended env st m)).length
        + if hasFin m then 1 else 0) := by
      rw [h.rcvNxt, hcount, UInt32.ofNat_add, hfin, UInt32.add_assoc]
    refine ⟨?_, ?_, ?_⟩
    . rw [hlen]
      exact hnxt
    . rcases h.acks with ⟨acks, hitems, hnum, _⟩
      rw [hlen, hitems, List.drop_left, ← hcount, h.rcvNxt]
      unfold finCount
      cases hf : hasFin m <;> simpa [hf] using hnum
    . rw [hnxt, UInt32.add_comm, UInt32.add_sub_cancel, UInt32.toNat_ofNat']
      split <;> omega

/--
What the handler counts is what it stores exactly when the segment meets the condition.
-/
theorem ngTcpHandleEstablished_counts_iff {env : Env} {s s' : Stack} {a : Addr}
    {st st' : NgTcpStream} {m : Mbuf} {r : Int} (hst : s.stream? a = some st)
    (h : ngTcpHandleEstablished env s a st m (tcplen m.ip) = .ok (r, s'))
    (hst' : s'.stream? a = some st') : CountsBytes m st st' ↔ countsCond env st m = true := by
  rcases ngTcpHandleEstablished_cases hst h with ⟨st1, ep', hhandled, rfl⟩
  rw [stream?_afterSegment ep' hst, if_pos rfl, Option.some.injEq] at hst'
  rw [← hst']
  exact hhandled.counts_iff

/-- Three bytes with PSH on a stream with an empty receive buffer. -/
theorem ngTcpHandleEstablished_counts_three
    : ∃ s s' st st' r, s.stream? 1 = some st ∧ st.status = .established
        ∧ ngTcpHandleEstablished .granting s 1 st (.segment 5 (rteTcpPshFlag ||| rteTcpAckFlag) 101
          1001 [1, 2, 3]) 23 = .ok (r, s')
        ∧ s'.stream? 1 = some st'
        ∧ CountsBytes (.segment 5 (rteTcpPshFlag ||| rteTcpAckFlag) 101 1001 [1, 2, 3]) st st' := by
  have hcheck : machine.check .init (serverUp ++ connect 5 ++ [.naccept 3]) (fun _ t =>
      (t.stream? 1).any (fun st => st.status == .established && st.rcvItems.isEmpty
        && returns (ngTcpHandleEstablished .granting t 1 st (.segment 5
            (rteTcpPshFlag ||| rteTcpAckFlag) 101 1001 [1, 2, 3]) 23)
          (fun res => (res.2.stream? 1).isSome))) = true := by
    decide +kernel
  rcases Machine.exists_run_of_check hcheck with ⟨_, s, _, _, htest⟩
  rw [Option.any_eq_true] at htest
  rcases htest with ⟨st, hst, htest⟩
  simp only [Bool.and_eq_true, beq_iff_eq, List.isEmpty_iff] at htest
  rcases htest with ⟨⟨hstatus, hempty⟩, htest⟩
  rcases exists_of_returns htest with ⟨⟨r, s'⟩, hhandle, htest⟩
  rcases Option.isSome_iff_exists.mp htest with ⟨st', hst'⟩
  refine ⟨s, s', st, st', r, hst, hstatus, hhandle, hst', ?_⟩
  apply (ngTcpHandleEstablished_counts_iff hst hhandle hst').mpr
  have hstores : stores .granting st = true := by
    simp only [stores, hempty]
    decide
  rw [countsCond, hstores]
  decide

/-- When no memory is left for three bytes of payload, they are acknowledged all the same. -/
theorem ngTcpHandleEstablished_miscounts
    : ¬∀ env s s' a st st' m r, s.stream? a = some st → st.status = .established
        → ngTcpHandleEstablished env s a st m (tcplen m.ip) = .ok (r, s')
        → s'.stream? a = some st' → CountsBytes m st st' := by
  -- There is no memory for the fragment, and `rcv_nxt` goes on by its length all the same.
  have hcheck : machine.check .init (serverUp ++ connect 5 ++ [.naccept 3]) (fun _ t =>
      (t.stream? 1).any (fun st => st.status == .established
        && returns (ngTcpHandleEstablished { Env.granting with rteMalloc := fun _ => false } t 1 st
            (.segment 5 (rteTcpPshFlag ||| rteTcpAckFlag) 101 1001 [1, 2, 3]) 23)
          (fun res => (res.2.stream? 1).any (fun st' =>
            (st'.rcvItems.drop st.rcvItems.length).isEmpty && st'.rcvNxt == st.rcvNxt + 3
              && st'.rcvNxt != st.rcvNxt)))) = true := by
    decide +kernel
  rcases Machine.exists_run_of_check hcheck with ⟨_, s, _, _, htest⟩
  intro hall
  rw [Option.any_eq_true] at htest
  rcases htest with ⟨st, hst, htest⟩
  simp only [Bool.and_eq_true, beq_iff_eq] at htest
  rcases htest with ⟨hstatus, htest⟩
  rcases exists_of_returns htest with ⟨⟨r, s'⟩, hhandle, htest⟩
  rw [Option.any_eq_true] at htest
  rcases htest with ⟨st', hst', htest⟩
  simp only [Bool.and_eq_true, List.isEmpty_iff, bne_iff_ne, ne_eq] at htest
  rcases htest with ⟨⟨hempty, _⟩, hne⟩
  have hcounts := (hall _ s s' 1 st st' _ r hst hstatus hhandle hst').rcvNxt
  rw [hempty] at hcounts
  apply hne
  rw [hcounts]
  apply UInt32.add_zero

end NgStack
