import DpdkLearning.Stack.Established
import DpdkLearning.Stack.Lemmas.Descriptors
import Mathlib.Data.List.Flatten

/-!
This module contains the receive buffer against the stream of the peer: what all segments of a run leave
in it, where `Established` looks at one of them.
-/

open Lib

namespace NgStack

/--
The fragments the step appends to the receive buffer of the stream at `a`.
-/
def rcvAppended (a : Addr) (e : Step) : List NgTcpFragment :=
  match e.pre.stream? a, e.post.stream? a with
  | some st, some st' => st'.rcvItems.drop st.rcvItems.length
  | _, _ => []

/--
What the segment takes of the sequence space of the peer.
-/
def seqlen (m : Mbuf) : Nat :=
  (payload m).length + if hasFin m then 1 else 0

/--
The segments come in the order of their sequence numbers, without gaps or duplicates.
-/
def inSequence : UInt32 → List Mbuf → Bool
  | _, [] => true
  | seq, m :: ms => ntohl m.tcp.sentSeq == seq && inSequence (seq + UInt32.ofNat (seqlen m)) ms

/--
A segment the step hands to the stream at `a` is well-formed, meets an established stream, and finds
memory and room for what it brings.
-/
structure Welcome (a : Addr) (env : Env) (st : NgTcpStream) (m : Mbuf) : Prop where
  status : st.status = .established
  wellFormed : 0 ≤ paylen m
  rteMalloc : ∀ i, env.rteMalloc i = true
  room : st.rcvItems.length + (hasPsh m).toNat + (hasFin m).toNat ≤ ringSize - 1

def Welcomed (a : Addr) (e : Step) : Prop :=
  ∀ env m st, e.act = .ngTcpProcess env m → segmentFor a e = some m → e.pre.stream? a = some st
    → Welcome a env st m

/--
The receive buffer refines the stream of the peer: it got its bytes, an end of stream for each FIN and
for nothing else, and `rcv_nxt` has moved over both.
-/
structure RefinesPeer (a : Addr) (tr : List Step) (st st' : NgTcpStream) : Prop where
  bytes : bytesOf (tr.flatMap (rcvAppended a)) = (segmentsFor a tr).flatMap payload
  ends : ∀ e ∈ tr, (rcvAppended a e).countP (fun f => f.length == 0)
    = if (segmentFor a e).any hasFin then 1 else 0
  rcvNxt : st'.rcvNxt = st.rcvNxt + UInt32.ofNat ((segmentsFor a tr).map seqlen).sum

theorem appended_of_granted {env : Env} {length : Nat} {m : Mbuf} {n : Int}
    (hmalloc : ∀ i, env.rteMalloc i = true) (hroom : length < ringSize - 1)
    (hlt : payloadlen m.tcp n < 2 ^ 32)
    : (appended env length m n).map (fun f => f.length.toNat) = [(payloadlen m.tcp n).toNat] := by
  unfold appended
  split
  . next hnone =>
    rw [recvFragment_eq_none_iff] at hnone
    simp [hmalloc] at hnone
  . next f hf =>
    rw [enqueued, if_pos hroom, List.map_singleton, (recvFragment_some hf hlt).2]

/--
What a welcome segment really leaves of its payload.
-/
def kept (m : Mbuf) : List UInt8 :=
  if hasPsh m then payload m else []

/--
The zero-length fragments a welcome segment leaves.
-/
def endsLeft (m : Mbuf) : Nat :=
  (if hasPsh m && (payload m).isEmpty then 1 else 0) + if hasFin m then 1 else 0

namespace Welcome

variable {a : Addr} {env : Env} {st : NgTcpStream} {m : Mbuf}

theorem length_pshAppended (h : Welcome a env st m)
    : (pshAppended env st m).map (fun f => f.length.toNat)
        = if hasPsh m then [(payload m).length] else [] := by
  have hlt := (paylen_bounds m).2
  unfold pshAppended
  cases hpsh : hasPsh m with
  | false => rfl
  | true =>
    have hroom := h.room
    rw [hpsh, Bool.toNat_true] at hroom
    rw [if_pos rfl, if_pos rfl, length_payload]
    apply appended_of_granted h.rteMalloc
    . omega
    . unfold paylen at hlt
      omega

theorem length_finAppended (h : Welcome a env st m)
    : (finAppended env st m).map (fun f => f.length.toNat) = if hasFin m then [0] else [] := by
  have hpsh : (pshAppended env st m).length = (hasPsh m).toNat := by
    have := congrArg List.length h.length_pshAppended
    rw [List.length_map] at this
    rw [this]
    cases hasPsh m <;> rfl
  unfold finAppended
  cases hfin : hasFin m with
  | false => rfl
  | true =>
    have hroom := h.room
    have hneg := payloadlen_hdrlen m.tcp
    have hmalloc : ∀ i, (env.after 3).rteMalloc i = true := fun i => h.rteMalloc (3 + i)
    rw [hfin, Bool.toNat_true] at hroom
    have hzero : (payloadlen m.tcp (hdrlen m.tcp).toNat).toNat = 0 := by omega
    rw [if_pos rfl, if_pos rfl, hpsh, ← hzero]
    apply appended_of_granted hmalloc
    . omega
    . omega

theorem bytesOf_appended (h : Welcome a env st m)
    : bytesOf (pshAppended env st m ++ finAppended env st m) = kept m := by
  rw [bytesOf_append, bytesOf_finAppended, List.append_nil, bytesOf_pshAppended, kept]
  cases hpsh : hasPsh m with
  | false => rfl
  | true =>
    have hroom := h.room
    rw [hpsh, Bool.toNat_true] at hroom
    have : st.rcvItems.length < ringSize - 1 := by omega
    simp [stores, h.rteMalloc, this]

theorem countP_appended (h : Welcome a env st m)
    : (pshAppended env st m ++ finAppended env st m).countP (fun f => f.length == 0)
        = endsLeft m := by
  have hmap : ∀ fs : List NgTcpFragment, fs.countP (fun f => f.length == 0)
      = (fs.map (fun f => f.length.toNat)).countP (fun n => n == 0) := by
    intro fs
    rw [List.countP_map]
    congr 1
    funext f
    simp [← UInt32.toNat_inj]
  rw [List.countP_append, hmap, hmap, h.length_pshAppended, h.length_finAppended, endsLeft]
  congr 1
  . cases hasPsh m with
    | false => rfl
    | true => cases payload m <;> simp
  . cases hasFin m <;> rfl

theorem pshCount_add_finCount (h : Welcome a env st m)
    : pshCount m + finCount m
        = UInt32.ofNat ((kept m).length + if hasFin m then 1 else 0) := by
  have hbounds := paylen_bounds m
  have hpos := h.wellFormed
  rw [UInt32.ofNat_add]
  congr 1
  . unfold pshCount kept
    cases hasPsh m with
    | false => rfl
    | true =>
      simp only [↓reduceIte, length_payload]
      rw [ofInt_eq_ofNat_iff hbounds (by omega)]
      omega
  . unfold finCount
    split <;> rfl

end Welcome

/--
What the steps of a run really keep of the segments they hand to the stream at `a`.
-/
structure Keeps (a : Addr) (tr : List Step) (st st' : NgTcpStream) : Prop where
  bytes : bytesOf (tr.flatMap (rcvAppended a)) = (segmentsFor a tr).flatMap kept
  ends : ∀ e ∈ tr, (rcvAppended a e).countP (fun f => f.length == 0)
    = ((segmentFor a e).map endsLeft).getD 0
  rcvNxt : st'.rcvNxt = st.rcvNxt + UInt32.ofNat
    ((segmentsFor a tr).map (fun m => (kept m).length + if hasFin m then 1 else 0)).sum

namespace Keeps

variable {a : Addr}

theorem nil (st : NgTcpStream) : Keeps a [] st st where
  bytes := rfl
  ends := by simp
  rcvNxt := (UInt32.add_zero st.rcvNxt).symm

theorem append {tr1 tr2 : List Step} {st1 st2 st3 : NgTcpStream} (h1 : Keeps a tr1 st1 st2)
    (h2 : Keeps a tr2 st2 st3) : Keeps a (tr1 ++ tr2) st1 st3 where
  bytes := by
    rw [List.flatMap_append, bytesOf_append, h1.bytes, h2.bytes, segmentsFor, segmentsFor,
      segmentsFor, List.filterMap_append, List.flatMap_append]
  ends := by
    intro e he
    rw [List.mem_append] at he
    exact he.elim (h1.ends e) (h2.ends e)
  rcvNxt := by
    rw [h2.rcvNxt, h1.rcvNxt, segmentsFor, segmentsFor, segmentsFor, List.filterMap_append,
      List.map_append, List.sum_append, UInt32.ofNat_add, UInt32.add_assoc]

end Keeps

theorem keeps_of_step {a : Addr} {e : Step} {st st' : NgTcpStream}
    (hstep : machine.step e.pre e.act = .ok (e.post, e.out)) (hwelcome : Welcomed a e)
    (hst : e.pre.stream? a = some st) (hst' : e.post.stream? a = some st') : Keeps a [e] st st' := by
  have happended : rcvAppended a e = st'.rcvItems.drop st.rcvItems.length := by
    rw [rcvAppended, hst, hst']
  cases hseg : segmentFor a e with
  | none =>
    rcases quiet_of_step hstep hseg hst hst' with ⟨hnxt, _, hle⟩
    rw [List.drop_eq_nil_of_le hle] at happended
    constructor
    . simp [segmentsFor, hseg, happended, bytesOf]
    . simp [hseg, happended]
    . simp [segmentsFor, hseg, hnxt]
  | some m =>
    rcases segmentFor_eq_some_iff.mp hseg with ⟨env, found, hact, hcksum, hfind⟩
    have hfound := stream?_of_ngTcpStreamOf hfind
    rw [hst] at hfound
    cases hfound
    have hm := hwelcome env m st hact hseg hst
    rcases handled_of_step hstep hact hcksum hfind hm.status with ⟨st1, ep', hhandled, hst1⟩
    rw [hst'] at hst1
    cases hst1
    rw [hhandled.rcvItems, List.drop_left] at happended
    constructor
    . simpa [segmentsFor, hseg, happended] using hm.bytesOf_appended
    . simpa [hseg, happended] using hm.countP_appended
    . rw [hhandled.rcvNxt, UInt32.add_assoc, hm.pshCount_add_finCount]
      simp [segmentsFor, hseg]

theorem keeps_of_run {a : Addr} {s t : Stack} {tr : List Step} {st st' : NgTcpStream}
    (h : Run s tr t) (hst : s.stream? a = some st) (hwelcome : ∀ e ∈ tr, Welcomed a e)
    (hst' : t.stream? a = some st') : Keeps a tr st st' := by
  induction h generalizing st' with
  | nil =>
    rw [hst] at hst'
    cases hst'
    exact .nil st
  | @snoc tr t u act out h hstep ih =>
    rcases stream?_before (known_of_run h (known_of_stream? hst)) hstep hst' with ⟨st1, hst1⟩
    have hpast := ih (fun e he => hwelcome e (List.mem_append_left _ he)) hst1
    apply hpast.append
    exact keeps_of_step (e := ⟨t, act, out, u⟩) hstep (hwelcome _ (by simp)) hst1 hst'

/--
PSH is set on the segments that have a payload, and on no others.
-/
def pshExact (m : Mbuf) : Bool :=
  hasPsh m == !(payload m).isEmpty

theorem pshExact_iff (m : Mbuf)
    : pshExact m = true
        ↔ kept m = payload m ∧ endsLeft m = if hasFin m then 1 else 0 := by
  unfold pshExact kept endsLeft
  cases hasPsh m <;> cases payload m <;> simp

theorem eq_of_flatMap_eq {α β : Type} {f g : α → List β} {l : List α}
    (hsub : ∀ x ∈ l, (f x).Sublist (g x)) (h : l.flatMap f = l.flatMap g)
    : ∀ x ∈ l, f x = g x := by
  induction l with
  | nil => simp
  | cons x l ih =>
    rw [List.forall_mem_cons] at hsub ⊢
    rcases hsub with ⟨hx, hsub⟩
    rw [List.flatMap_cons, List.flatMap_cons] at h
    have hlen := congrArg List.length h
    have hle := (List.Sublist.flatMap_right l hsub).length_le
    have hxle := hx.length_le
    simp only [List.length_append] at hlen
    have heq : f x = g x := hx.eq_of_length (by omega)
    rw [heq, List.append_cancel_left_eq] at h
    exact ⟨heq, ih hsub h⟩

theorem kept_sublist (m : Mbuf) : (kept m).Sublist (payload m) := by
  unfold kept
  split <;> simp

/--
The receive buffer refines the stream of the peer exactly when every segment that brings a payload has
PSH set, and no other.
-/
theorem refinesPeer_iff {a : Addr} {s t : Stack} {tr : List Step} {st st' : NgTcpStream}
    (h : Run s tr t) (hst : s.stream? a = some st) (hwelcome : ∀ e ∈ tr, Welcomed a e)
    (hst' : t.stream? a = some st')
    : RefinesPeer a tr st st' ↔ ∀ m ∈ segmentsFor a tr, pshExact m = true := by
  have hkeeps := keeps_of_run h hst hwelcome hst'
  constructor
  . intro hrefines m hm
    rw [pshExact_iff]
    constructor
    -- Of each payload a part is kept. Together the parts are everything only if each of them is.
    . apply eq_of_flatMap_eq (fun m _ => kept_sublist m) ?_ m hm
      rw [← hkeeps.bytes, hrefines.bytes]
    . rw [segmentsFor, List.mem_filterMap] at hm
      rcases hm with ⟨e, he, hseg⟩
      have hends := hrefines.ends e he
      rw [hkeeps.ends e he, hseg] at hends
      exact hends
  . intro hexact
    simp only [pshExact_iff] at hexact
    constructor
    . rw [hkeeps.bytes, List.flatMap, List.flatMap]
      congr 1
      apply List.map_congr_left
      exact fun m hm => (hexact m hm).1
    . intro e he
      rw [hkeeps.ends e he]
      cases hseg : segmentFor a e with
      | none => rfl
      | some m => exact (hexact m (List.mem_filterMap.mpr ⟨e, he, hseg⟩)).2
    . rw [hkeeps.rcvNxt]
      congr 3
      apply List.map_congr_left
      intro m hm
      rw [(hexact m hm).1, seqlen]

/--
The stream at `a` is established before the step and has room for two more fragments.
-/
def readyFor (a : Addr) (e : Step) : Bool :=
  (e.pre.stream? a).any (fun st =>
    st.status == .established && decide (st.rcvItems.length + 2 ≤ ringSize - 1))

theorem welcomed_of_readyFor {a : Addr} {e : Step} {m : Mbuf} (hact : e.act = .ngTcpProcess .granting m)
    (hready : readyFor a e = true) (hwf : 0 ≤ paylen m) : Welcomed a e := by
  intro env m' st hact' _ hst
  rw [hact] at hact'
  cases hact'
  simp only [readyFor, hst, Option.any_some, Bool.and_eq_true, beq_iff_eq, decide_eq_true_eq] at hready
  refine ⟨hready.1, hwf, fun _ => rfl, ?_⟩
  have hpsh := (hasPsh m).toNat_le
  have hfin := (hasFin m).toNat_le
  omega

/-- Three bytes and then a FIN. -/
theorem refinesPeer_three
    : ∃ s t tr st st', Run s tr t ∧ s.stream? 1 = some st ∧ t.stream? 1 = some st'
        ∧ (segmentsFor 1 tr).length = 2 ∧ RefinesPeer 1 tr st st' := by
  have hcheck : machine.check .init (serverUp ++ connect 5 ++ [.naccept 3]) (fun _ s =>
      (s.stream? 1).isSome && machine.check s [
        .ngTcpProcess .granting (.segment 5 (rteTcpPshFlag ||| rteTcpAckFlag) 101 1001 [1, 2, 3]),
        .ngTcpProcess .granting (.segment 5 (rteTcpFinFlag ||| rteTcpAckFlag) 104 1001 [])]
        (fun tr t => tr.all (readyFor 1) && (t.stream? 1).isSome
          && (segmentsFor 1 tr).length == 2)) = true := by
    decide +kernel
  rcases Machine.exists_run_of_check hcheck with ⟨_, s, _, _, htest⟩
  rw [Bool.and_eq_true, Option.isSome_iff_exists] at htest
  rcases htest with ⟨⟨st, hst⟩, htest⟩
  rcases Machine.exists_run_of_check htest with ⟨tr, t, hrun, hacts, htest⟩
  simp only [Bool.and_eq_true, List.all_eq_true, Option.isSome_iff_exists, beq_iff_eq] at htest
  rcases htest with ⟨⟨hready, st', hst'⟩, hlen⟩
  have hact : ∀ e ∈ tr, ∃ m, e.act = .ngTcpProcess .granting m ∧ 0 ≤ paylen m ∧ pshExact m = true := by
    intro e he
    have := List.mem_map_of_mem (f := Edge.act) he
    rw [hacts, List.mem_cons, List.mem_singleton] at this
    rcases this with h | h
    . exact ⟨_, h, by decide, by decide⟩
    . exact ⟨_, h, by decide, by decide⟩
  refine ⟨s, t, tr, st, st', hrun, hst, hst', hlen, ?_⟩
  apply (refinesPeer_iff hrun hst ?_ hst').mpr
  . intro m hm
    rcases List.mem_filterMap.mp hm with ⟨e, he, hseg⟩
    rcases segmentFor_eq_some_iff.mp hseg with ⟨_, _, hact', _⟩
    rcases hact e he with ⟨m', hm', _, hexact⟩
    rw [hm'] at hact'
    cases hact'
    exact hexact
  . intro e he
    rcases hact e he with ⟨m, hm, hwf, _⟩
    exact welcomed_of_readyFor hm (hready e he) hwf

/-- Three bytes without PSH are lost. -/
theorem not_refinesPeer_of_no_psh
    : ¬∀ a s t tr st st', Run s tr t → s.stream? a = some st → st.status = .established
        → t.stream? a = some st' → (∀ e ∈ tr, Welcomed a e)
        → inSequence st.rcvNxt (segmentsFor a tr) = true → RefinesPeer a tr st st' := by
  -- The peer sends three bytes without PSH, which are dropped.
  have hcheck : machine.check .init (serverUp ++ connect 5 ++ [.naccept 3]) (fun _ s =>
      (s.stream? 1).any (fun st => st.status == .established && machine.check s [
        .ngTcpProcess .granting (.segment 5 rteTcpAckFlag 101 1001 [1, 2, 3])]
        (fun tr t => tr.all (readyFor 1) && inSequence st.rcvNxt (segmentsFor 1 tr)
          && ((segmentsFor 1 tr).flatMap payload != []) && (tr.flatMap (rcvAppended 1)).isEmpty
          && (t.stream? 1).isSome))) = true := by
    decide +kernel
  rcases Machine.exists_run_of_check hcheck with ⟨_, s, _, _, htest⟩
  intro hall
  rw [Option.any_eq_true] at htest
  rcases htest with ⟨st, hst, htest⟩
  rw [Bool.and_eq_true, beq_iff_eq] at htest
  rcases htest with ⟨hstatus, htest⟩
  rcases Machine.exists_run_of_check htest with ⟨tr, t, hrun, hacts, htest⟩
  simp only [Bool.and_eq_true, List.all_eq_true, Option.isSome_iff_exists, bne_iff_ne, ne_eq,
    List.isEmpty_iff] at htest
  rcases htest with ⟨⟨⟨⟨hready, hseq⟩, hpayload⟩, hempty⟩, st', hst'⟩
  have hwelcome : ∀ e ∈ tr, Welcomed 1 e := by
    intro e he
    have := List.mem_map_of_mem (f := Edge.act) he
    rw [hacts, List.mem_singleton] at this
    exact welcomed_of_readyFor this (hready e he) (by decide)
  have hbytes := (hall 1 s t tr st st' hrun hst hstatus hst' hwelcome hseq).bytes
  rw [hempty] at hbytes
  exact hpayload hbytes.symm

end NgStack
