import DpdkLearning.Lib.Ranges
import DpdkLearning.Stack.Established
import DpdkLearning.Stack.Lemmas.Descriptors
import Mathlib.Data.UInt

/-!
This module contains the sequence numbers of what a connection sends: `nsend` and `nclose` take them from
`snd_nxt`, which only the acknowledgements of the peer move.
-/

open Lib

namespace NgStack

/--
The step creates the connection at `a` with the initial sequence number `iss`.
-/
structure Opens (a : Addr) (iss : UInt32) (e : Step) : Prop where
  act : ∃ env m, e.act = .ngTcpProcess env m
  before : e.pre.stream? a = none
  after : ∃ st, e.post.stream? a = some st ∧ st.sndNxt = iss

/--
Data and FIN fragments, which take up sequence numbers of the connection.
-/
def carriesSeq (f : NgTcpFragment) : Bool :=
  hasFlag f.tcpFlags rteTcpPshFlag || hasFlag f.tcpFlags rteTcpFinFlag

/--
The data and FIN fragments that are put on the send buffer of a stream when it changes.
-/
def sndAdded : Option NgTcpStream → Option NgTcpStream → List NgTcpFragment
  | some st, some st' => (st'.sndItems.drop st.sndItems.length).filter carriesSeq
  | _, _ => []

def sndPut (a : Addr) (e : Step) : List NgTcpFragment :=
  sndAdded (e.pre.stream? a) (e.post.stream? a)

/--
The sequence ranges of the fragments, as their seqnum and their length.
-/
def sndRanges (a : Addr) (tr : List Step) : List (UInt32 × UInt32) :=
  (tr.flatMap (sndPut a)).map (fun f => (f.seqnum, f.length))

/--
The call is an `nsend` on the stream at `a` or an `nclose` of it, with memory for its fragment and room
in the send buffer.
-/
def queues (a : Addr) (s : Stack) (act : Act) : Bool :=
  match s.stream? a with
  | none => false
  | some st =>
    decide (st.sndItems.length < ringSize - 1) &&
      match act with
      | .nsend env fd _ => denotes s fd a && env.rteMalloc 0 && env.rteMalloc 1
      | .nclose env fd => denotes s fd a && st.status != .listen && env.rteMalloc 0
      | _ => false

/--
How many sequence numbers the fragment of an `nsend` or `nclose` takes up.
-/
def queuedLength : Act → UInt32
  | .nsend _ _ buf => UInt32.ofNat buf.length
  | _ => 0

/--
How many sequence numbers the fragments queued on the stream at `a` take up.
-/
def queued (a : Addr) (tr : List Step) : UInt32 :=
  ((tr.filter (fun e => queues a e.pre e.act)).map (fun e => queuedLength e.act)).sum

/--
No segment of the run acknowledges more than the stream at `a` has sent, which is `sent` from `iss` on
before the run.
-/
def acksSent (a : Addr) (iss : UInt32) : UInt32 → List Step → Bool
  | _, [] => true
  | sent, e :: tr =>
    (segmentFor a e).all (fun m => decide (ntohl m.tcp.recvAck - iss ≤ sent))
      && acksSent a iss (sent + if queues a e.pre e.act then queuedLength e.act else 0) tr

/--
The acknowledgement number of a segment with PSH or FIN that the stream at `a` gets while it is
established.
-/
def ackOf (a : Addr) (e : Step) : Option UInt32 :=
  match segmentFor a e, e.pre.stream? a with
  | some m, some st =>
    if st.status = .established ∧ (hasPsh m || hasFin m) then some (ntohl m.tcp.recvAck) else none
  | _, _ => none

/--
The last of these acknowledgement numbers, `iss` before there is one.
-/
def lastAck (a : Addr) (iss : UInt32) (tr : List Step) : UInt32 :=
  ((tr.filterMap (ackOf a)).getLast?).getD iss

theorem carriesSeq_sndFragment (st : NgTcpStream) (buf : List UInt8)
    : carriesSeq (st.sndFragment buf) = true := by
  simp only [carriesSeq, NgTcpStream.sndFragment]
  decide

theorem carriesSeq_finFragment (st : NgTcpStream) (stale : NgTcpFragment)
    : carriesSeq (st.finFragment stale) = true := by
  simp only [carriesSeq, NgTcpStream.finFragment]
  decide

theorem sndAdded_append {st st' : NgTcpStream} {fs : List NgTcpFragment}
    (h : st'.sndItems = st.sndItems ++ fs) : sndAdded (some st) (some st') = fs.filter carriesSeq := by
  rw [sndAdded, h, List.drop_left]

theorem sndAdded_eq_nil {st st' : NgTcpStream} (h : st'.sndItems.length ≤ st.sndItems.length)
    : sndAdded (some st) (some st') = [] := by
  rw [sndAdded, List.drop_eq_nil_of_le h, List.filter_nil]

/--
The fragment of an `nsend` or `nclose` on the stream.
-/
def NgTcpStream.queuedFragment (st : NgTcpStream) : Act → NgTcpFragment
  | .nsend _ _ buf => st.sndFragment buf
  | .nclose env _ => st.finFragment env.staleFragment
  | _ => .zero

/--
The step puts the fragment of its call where it `queues`, and nothing elsewhere.
-/
def PutsNext (a : Addr) (s : Stack) (act : Act) (st : NgTcpStream) (o' : Option NgTcpStream) : Prop :=
  sndAdded (some st) o' = if queues a s act then [st.queuedFragment act] else []

theorem queuedFragment_range {a : Addr} {s : Stack} {act : Act} (st : NgTcpStream)
    (h : queues a s act = true)
    : (st.queuedFragment act).seqnum = st.sndNxt ∧ (st.queuedFragment act).length = queuedLength act := by
  unfold queues at h
  cases hst : s.stream? a with
  | none => simp [hst] at h
  | some st1 =>
    rw [hst] at h
    cases act with
    | nsend | nclose => exact ⟨rfl, rfl⟩
    | _ => simp at h

theorem PutsNext.ranges {a : Addr} {s : Stack} {act : Act} {st : NgTcpStream}
    {o' : Option NgTcpStream} (h : PutsNext a s act st o')
    : (sndAdded (some st) o').map (fun f => (f.seqnum, f.length))
        = if queues a s act then [(st.sndNxt, queuedLength act)] else [] := by
  rw [h]
  split
  . next hq =>
    rcases queuedFragment_range st hq with ⟨hseq, hlen⟩
    rw [List.map_singleton, hseq, hlen]
  . rfl

theorem PutsNext.of_enqueued {a : Addr} {s : Stack} {act : Act} {st st' : NgTcpStream}
    (h : st'.sndItems = st.sndItems ++ enqueued st.sndItems.length (st.queuedFragment act))
    (hf : carriesSeq (st.queuedFragment act) = true)
    (hq : queues a s act = decide (st.sndItems.length < ringSize - 1))
    : PutsNext a s act st (some st') := by
  rw [PutsNext, sndAdded_append h, hq]
  unfold enqueued
  split
  . next hroom => simp [hf, hroom]
  . next hroom => simp [hroom]

theorem PutsNext.of_length_le {a : Addr} {s : Stack} {act : Act} {st st' : NgTcpStream}
    (hq : queues a s act = false) (h : st'.sndItems.length ≤ st.sndItems.length)
    : PutsNext a s act st (some st') := by
  rw [PutsNext, sndAdded_eq_nil h, hq]
  rfl

theorem PutsNext.of_not_queues {a : Addr} {s : Stack} {act : Act} {st : NgTcpStream}
    (hq : queues a s act = false) : PutsNext a s act st (some st) :=
  .of_length_le hq (Nat.le_refl _)

theorem putsNext_of_nsend {env : Env} {s s' : Stack} {fd : Int} {buf : List UInt8} {a : Addr}
    {st : NgTcpStream} (h : NsendDone env s fd buf s') (hst : s.stream? a = some st)
    : PutsNext a s (.nsend env fd buf) st (s'.stream? a) := by
  cases h with
  | same hno =>
    rw [hst]
    apply PutsNext.of_not_queues
    have : (denotes s fd a && env.rteMalloc 0 && env.rteMalloc 1) = false := by
      rw [← Bool.not_eq_true, Bool.and_eq_true, Bool.and_eq_true, denotes_iff]
      rintro ⟨⟨⟨st', hinfo, hproto⟩, h0⟩, h1⟩
      rcases hno a st' hinfo hproto with h | h
      . rw [h] at h0
        contradiction
      . rw [h] at h1
        contradiction
    simp [queues, hst, this]
  | @sent b st' sndbuf hinfo hproto hmalloc hsnd =>
    rw [stream?_modifyStream]
    split
    . next heq =>
      subst heq
      have hget := (getHostinfoFromfd_stream hinfo).1
      rw [hst] at hget
      cases hget
      have hden : denotes s fd a = true := denotes_iff.mpr ⟨st, hinfo, hproto⟩
      rw [hst, Option.map_some]
      exact .of_enqueued hsnd (carriesSeq_sndFragment st buf)
        (by simp [queues, hst, hden, hmalloc])
    . next heq =>
      rw [hst]
      apply PutsNext.of_not_queues
      simp [queues, hst, denotes_eq_false hinfo heq]

theorem putsNext_of_nclose {env : Env} {s s' : Stack} {fd : Int} {a : Addr} {st : NgTcpStream}
    (h : NcloseDone env s fd s') (hst : s.stream? a = some st)
    : PutsNext a s (.nclose env fd) st (s'.stream? a) := by
  cases h with
  | same hno _ =>
    rw [hst]
    apply PutsNext.of_not_queues
    have : (denotes s fd a && env.rteMalloc 0) = false := by
      rw [← Bool.not_eq_true, Bool.and_eq_true, denotes_iff]
      rintro ⟨⟨st', hinfo, hproto⟩, h0⟩
      rw [(hno a st' hinfo hproto).2] at h0
      contradiction
    rw [Bool.and_eq_false_iff] at this
    rcases this with h | h <;> simp [queues, hst, h]
  | host hinfo =>
    change PutsNext a s (.nclose env fd) st (s.stream? a)
    rw [hst]
    apply PutsNext.of_not_queues
    simp [queues, hst, denotes, hinfo]
  | @fin b st1 sndbuf hinfo hproto hstatus hmalloc hsnd =>
    change PutsNext a s (.nclose env fd) st ((s.modifyStream b _).stream? a)
    rw [stream?_modifyStream]
    split
    . next heq =>
      subst heq
      have hget := (getHostinfoFromfd_stream hinfo).1
      rw [hst] at hget
      cases hget
      have hden : denotes s fd a = true := denotes_iff.mpr ⟨st, hinfo, hproto⟩
      rw [hst, Option.map_some]
      exact .of_enqueued hsnd (carriesSeq_finFragment st env.staleFragment)
        (by simp [queues, hst, hden, hmalloc, hstatus])
    . next heq =>
      rw [hst]
      apply PutsNext.of_not_queues
      simp [queues, hst, denotes_eq_false hinfo heq]
  -- A listener is removed without a FIN.
  | @listen b st1 hinfo hstatus =>
    change PutsNext a s (.nclose env fd) st ((s.table.tcbSet.remove b).get? a)
    rw [ObjList.get?_remove]
    split
    . next heq =>
      subst heq
      have hget := (getHostinfoFromfd_stream hinfo).1
      rw [hst] at hget
      cases hget
      simp [PutsNext, sndAdded, queues, hst, hstatus]
    . next heq =>
      change PutsNext a s (.nclose env fd) st (s.stream? a)
      rw [hst]
      apply PutsNext.of_not_queues
      simp [queues, hst, denotes_eq_false hinfo heq]

theorem SegmentHandled.sndAdded {env : Env} {m : Mbuf} {st st' : NgTcpStream}
    {ep ep' : Option Eventpoll} (h : SegmentHandled env m st ep st' ep')
    : sndAdded (some st) (some st') = [] := by
  rcases h.acks with ⟨acks, hitems, _, hacks⟩
  rw [sndAdded_append hitems, List.filter_eq_nil_iff]
  intro f hf
  rcases hacks f hf with ⟨st1, rfl⟩
  simp only [carriesSeq, ackFragment]
  decide

theorem putsNext_of_step {s s' : Stack} {act : Act} {out : Out} {a : Addr} {st : NgTcpStream}
    (hstep : machine.step s act = .ok (s', out)) (hst : s.stream? a = some st)
    : PutsNext a s act st (s'.stream? a) := by
  have hstepped := stepped_of_step hstep
  by_cases hcall : (∃ env fd buf, act = .nsend env fd buf) ∨ ∃ env fd, act = .nclose env fd
  . rcases hcall with ⟨env, fd, buf, rfl⟩ | ⟨env, fd, rfl⟩
    . cases hstepped with
      | nsend h => exact putsNext_of_nsend h hst
    . cases hstepped with
      | nclose h => exact putsNext_of_nclose h hst
  -- No other step queues data or a FIN.
  . rw [not_or] at hcall
    rcases hcall with ⟨hsend, hclose⟩
    have hq : queues a s act = false := by
      unfold queues
      rw [hst]
      dsimp
      split
      . exact absurd ⟨_, _, _, rfl⟩ hsend
      . exact absurd ⟨_, _, rfl⟩ hclose
      . rw [Bool.and_false]
    have hstream := streamStep_of_step hstep a
    rw [hst] at hstream
    generalize framesOf a out.tcpFrames = frames at hstream
    generalize s'.stream? a = o' at hstream ⊢
    cases hstream with
    | sent hact _ _ => exact absurd ⟨_, _, _, hact⟩ hsend
    | fin hact _ _ _ _ _ _ => exact absurd ⟨_, _, hact⟩ hclose
    | removed _ _ _ | lastAck _ _ _ _ _ => simp [PutsNext, sndAdded, hq]
    | segment _ _ _ _ h => simp [PutsNext, h.sndAdded, hq]
    | out _ h => exact .of_length_le hq h.length_sndItems_le
    | same | bound _ _ | listened _ _ | accepted _ _ _ | read _ _ _ | handshake _ _ _ _ _ =>
      exact .of_length_le hq (Nat.le_refl _)

theorem SegmentHandled.sndNxt {env : Env} {m : Mbuf} {st st' : NgTcpStream}
    {ep ep' : Option Eventpoll} (h : SegmentHandled env m st ep st' ep')
    : st'.sndNxt = if hasPsh m || hasFin m then ntohl m.tcp.recvAck else st.sndNxt := by
  unfold hasPsh hasFin
  cases h with
  | neither hpsh hfin => simp [hpsh, hfin]
  | psh hpsh hfin h _ _ =>
    rcases h.stream with ⟨_, _, rfl⟩
    simp [hpsh]
  | fin hpsh hfin h _ _ =>
    rcases h.stream with ⟨_, _, rfl⟩
    simp [hfin]
  | both hpsh hfin _ h _ _ _ =>
    rcases h.stream with ⟨_, _, rfl⟩
    simp [hpsh]

/-- Nothing but such an acknowledgement moves `snd_nxt`. -/
theorem sndNxt_of_step {a : Addr} {e : Step} {st st' : NgTcpStream}
    (hstep : machine.step e.pre e.act = .ok (e.post, e.out)) (hst : e.pre.stream? a = some st)
    (hst' : e.post.stream? a = some st') : st'.sndNxt = (ackOf a e).getD st.sndNxt := by
  unfold ackOf
  rw [hst]
  cases hseg : segmentFor a e with
  | none => exact (quiet_of_step hstep hseg hst hst').sndNxt
  | some m =>
    rcases segmentFor_eq_some_iff.mp hseg with ⟨env, found, hact, hcksum, hfind⟩
    have hfound := stream?_of_ngTcpStreamOf hfind
    rw [hst] at hfound
    cases hfound
    by_cases hstatus : st.status = .established
    . rcases handled_of_step hstep hact hcksum hfind hstatus with ⟨st1, ep', hhandled, hst1⟩
      rw [hst'] at hst1
      cases hst1
      rw [hhandled.sndNxt]
      simp only [hstatus, true_and]
      split <;> rfl
    . simp only [hstatus, false_and, ↓reduceIte, Option.getD_none]
      have h := streamStep_of_step hstep a
      rw [hst, hst', hact] at h
      generalize framesOf a e.out.tcpFrames = frames at h
      cases h with
      | same => rfl
      | handshake => rfl
      | segment _ _ _ hstatus' _ => exact absurd hstatus' hstatus
      | bound hact' _ | listened hact' _ | accepted hact' _ _ | sent hact' _ _ | read hact' _ _
      | fin hact' _ _ _ _ _ _ | out hact' _ => contradiction

theorem lastAck_append (a : Addr) (iss : UInt32) (tr : List Step) (e : Step)
    : lastAck a iss (tr ++ [e]) = (ackOf a e).getD (lastAck a iss tr) := by
  unfold lastAck
  rw [List.filterMap_append]
  cases hack : ackOf a e with
  | none => simp [hack]
  | some ack => simp [hack]

theorem sndNxt_of_run {s t : Stack} {tr : List Step} {a : Addr} {st st' : NgTcpStream}
    (h : Run s tr t) (hst : s.stream? a = some st) (hst' : t.stream? a = some st')
    : st'.sndNxt = lastAck a st.sndNxt tr := by
  induction h generalizing st' with
  | nil =>
    rw [hst] at hst'
    cases hst'
    rfl
  | @snoc tr t u act out h hstep ih =>
    rcases stream?_before (known_of_run h (known_of_stream? hst)) hstep hst' with ⟨st1, hst1⟩
    rw [lastAck_append, ← ih hst1]
    exact sndNxt_of_step (e := ⟨t, act, out, u⟩) hstep hst1 hst'

theorem sndRanges_append {s : Stack} {tr : List Step} {a : Addr} {st : NgTcpStream} {e : Step}
    (h : Run s tr e.pre) (hst : s.stream? a = some st)
    (hstep : machine.step e.pre e.act = .ok (e.post, e.out))
    : sndRanges a (tr ++ [e]) = sndRanges a tr
        ++ if queues a e.pre e.act then [(lastAck a st.sndNxt tr, queuedLength e.act)] else [] := by
  unfold sndRanges
  rw [List.flatMap_append, List.map_append, List.flatMap_singleton, sndPut]
  congr 1
  cases hst1 : e.pre.stream? a with
  | none => simp [sndAdded, queues, hst1]
  | some st1 =>
    rw [← sndNxt_of_run h hst hst1]
    exact (putsNext_of_step hstep hst1).ranges

theorem queued_append (a : Addr) (tr : List Step) (e : Step)
    : queued a (tr ++ [e])
        = queued a tr + if queues a e.pre e.act then queuedLength e.act else 0 := by
  unfold queued
  rw [List.filter_append]
  split
  . next hq => simp [hq]
  . next hq => simp [hq]

theorem size_sndRanges {s t : Stack} {tr : List Step} {a : Addr} {st : NgTcpStream}
    (h : Run s tr t) (hst : s.stream? a = some st)
    : Contiguous.size (sndRanges a tr) = queued a tr := by
  induction h with
  | nil => rfl
  | @snoc tr t u act out h hstep ih =>
    rw [sndRanges_append (e := ⟨t, act, out, u⟩) h hst hstep, queued_append, ← ih]
    dsimp
    split <;> simp [Contiguous.size]

/-- A run from the state that has created the connection. -/
theorem sndRanges_contiguous_of_run {s t : Stack} {tr : List Step} {a : Addr} {st : NgTcpStream}
    (start : UInt32) (h : Run s tr t) (hst : s.stream? a = some st)
    : Contiguous start (sndRanges a tr)
        ↔ ∀ tr1 f tr2, tr = tr1 ++ f :: tr2 → queues a f.pre f.act = true
          → lastAck a st.sndNxt tr1 = start + queued a tr1 := by
  induction h with
  | nil => simp [sndRanges, Contiguous]
  | @snoc tr t u act out h hstep ih =>
    rw [sndRanges_append (e := ⟨t, act, out, u⟩) h hst hstep, Contiguous.append_iff, ih,
      size_sndRanges h hst]
    have hlast : Contiguous (start + queued a tr)
        (if queues a t act then [(lastAck a st.sndNxt tr, queuedLength act)] else [])
        ↔ (queues a t act = true → lastAck a st.sndNxt tr = start + queued a tr) := by
      split
      . next hq => simp [hq, Contiguous]
      . next hq => simp [hq, Contiguous]
    rw [hlast, forall_split_concat_iff]

/--
The data and FIN fragments of a connection follow one another from `iss + 1` on exactly when each of
them is queued while the last acknowledgement that came with PSH or FIN covers all before it.
-/
theorem sndRanges_contiguous_iff {s t : Stack} {e : Step} {tr : List Step} {a : Addr} {iss : UInt32}
    (h : Run s (e :: tr) t) (hopens : Opens a iss e)
    : Contiguous (iss + 1) (sndRanges a tr)
        ↔ ∀ tr1 f tr2, tr = tr1 ++ f :: tr2 → queues a f.pre f.act = true
          → lastAck a iss tr1 = iss + 1 + queued a tr1 := by
  rcases hopens.after with ⟨st, hst, rfl⟩
  exact sndRanges_contiguous_of_run _ h.cons_inv.2.2 hst

/--
The connection at `a` is opened by the step, as a test.
-/
def opens (a : Addr) (iss : UInt32) (e : Step) : Bool :=
  (e.pre.stream? a).isNone && (e.post.stream? a).any (fun st => st.sndNxt == iss)

theorem opens_of_test {a : Addr} {iss : UInt32} {e : Step} {env : Env} {m : Mbuf}
    (hact : e.act = .ngTcpProcess env m) (h : opens a iss e = true) : Opens a iss e := by
  simp only [opens, Bool.and_eq_true, Option.isNone_iff_eq_none, Option.any_eq_true,
    beq_iff_eq] at h
  exact ⟨⟨env, m, hact⟩, h.1, h.2⟩

/-- Two replies, the first of them acknowledged before the second. -/
theorem sndRanges_contiguous_two
    : ∃ s t e tr, Run s (e :: tr) t ∧ Opens 1 1000 e
        ∧ sndRanges 1 tr = [(1001, 3), (1004, 2)]
        ∧ ∀ tr1 f tr2, tr = tr1 ++ f :: tr2 → queues 1 f.pre f.act = true
          → lastAck 1 1000 tr1 = 1000 + 1 + queued 1 tr1 := by
  have hcheck : machine.check .init serverUp (fun _ s => machine.check s (connect 5 ++ [.naccept 3,
      .ngTcpProcess .granting (.segment 5 (rteTcpPshFlag ||| rteTcpAckFlag) 101 1001 [1, 2, 3]),
      .nsend .granting 5 [1, 2, 3],
      .ngTcpProcess .granting (.segment 5 (rteTcpPshFlag ||| rteTcpAckFlag) 104 1004 [4, 5]),
      .nsend .granting 5 [4, 5]])
      (fun tr _ => match tr with
        | [] => false
        | e :: tr => opens 1 1000 e && sndRanges 1 tr == [(1001, 3), (1004, 2)])) = true := by
    decide +kernel
  rcases Machine.exists_run_of_check hcheck with ⟨_, s, _, _, htest⟩
  rcases Machine.exists_run_of_check htest with ⟨tr, t, hrun, hacts, htest⟩
  split at htest
  . contradiction
  . next e tr =>
    rw [Bool.and_eq_true, beq_iff_eq] at htest
    have hopens := opens_of_test (List.cons.inj hacts).1 htest.1
    refine ⟨s, t, e, tr, hrun, hopens, htest.2, ?_⟩
    apply (sndRanges_contiguous_iff hrun hopens).mp
    rw [htest.2]
    simp [Contiguous]

/-- Two replies before an acknowledgement get the same sequence number. -/
theorem not_sndRanges_contiguous
    : ¬∀ a iss s t e tr, Run s (e :: tr) t → Opens a iss e → acksSent a iss 1 tr = true
        → Contiguous (iss + 1) (sndRanges a tr) := by
  -- Two calls of `nsend` in a row number their fragments alike, as nothing was acknowledged in between.
  have hcheck : machine.check .init (serverUp ++ [.ngArpEntryInsert true 7 (.replicate 6 1)])
      (fun _ s => machine.check s [
      .ngTcpProcess .granting (.segment 5 rteTcpSynFlag 100 0 []),
      .ngTcpOut .granting,
      .ngTcpProcess .granting (.segment 5 rteTcpAckFlag 101 1001 []),
      .naccept 3,
      .ngTcpProcess .granting (.segment 5 (rteTcpPshFlag ||| rteTcpAckFlag) 101 1001 [1, 2, 3]),
      .nsend .granting 5 [1, 2],
      .nsend .granting 5 [3]]
      (fun tr _ => match tr with
        | [] => false
        | e :: tr => opens 1 1000 e && acksSent 1 1000 1 tr
          && sndRanges 1 tr == [(1001, 2), (1001, 1)])) = true := by
    decide +kernel
  rcases Machine.exists_run_of_check hcheck with ⟨_, s, _, _, htest⟩
  rcases Machine.exists_run_of_check htest with ⟨tr, t, hrun, hacts, htest⟩
  intro hall
  split at htest
  . contradiction
  . next e tr =>
    rw [Bool.and_eq_true, Bool.and_eq_true, beq_iff_eq] at htest
    rcases htest with ⟨⟨hopens, hacks⟩, hranges⟩
    have hcontiguous := hall 1 1000 s t e tr hrun (opens_of_test (List.cons.inj hacts).1 hopens) hacks
    rw [hranges] at hcontiguous
    have : (1001 : UInt32) = 1000 + 1 + 2 := hcontiguous.2.1
    exact absurd this (by decide)

end NgStack
