import DpdkLearning.Lib.Ledger
import DpdkLearning.Stack.SendSequence

/-!
This module contains the end of a connection: what has become of the fragments on its send buffer when
the last ACK removes it.
-/

open Lib

namespace NgStack

/--
The data and FIN fragments that still wait to be sent.
-/
def unsent (st : NgTcpStream) : List NgTcpFragment :=
  st.sndItems.filter carriesSeq

def unsentOn (a : Addr) (s : Stack) : List NgTcpFragment :=
  ((s.stream? a).map unsent).getD []

/--
The data and FIN fragments of the stream at `a` whose frames the step puts on `ring->out`.
-/
def emitted (a : Addr) (e : Step) : List NgTcpFragment :=
  (framesOf a (e.out.tcpFrames.filter TcpFrame.sent)).filter carriesSeq

/--
The fragment of which a pass makes a frame for the stream at `a`.
-/
def nextFrame (s : Stack) (a : Addr) : List NgTcpFragment :=
  match s.stream? a with
  | some st => if (ngGetDstMacaddr s.arpt st.sip).isSome then st.sndItems.take 1 else []
  | none => []

/--
The data and FIN fragments of the stream at `a` that a pass takes while `ring->out` is full.
-/
def dropped (a : Addr) (e : Step) : List NgTcpFragment :=
  match e.act with
  | .ngTcpOut env => if env.outRoom a then [] else (nextFrame e.pre a).filter carriesSeq
  | _ => []

/--
The FIN fragment that the step puts on the send buffer of the stream at `a`, if it is an `nclose`.
-/
def finPut (a : Addr) (e : Step) : List NgTcpFragment :=
  match e.act with
  | .nclose _ _ => sndPut a e
  | _ => []

/--
The run has sent what was queued before an `nclose` and its FIN, and the segment acknowledges the FIN.
-/
structure TornDown (a : Addr) (tr : List Step) (m : Mbuf) : Prop where
  closed : ∃ c ∈ tr, finPut a c ≠ []
  sent : ∀ tr1 c tr2 fin, tr = tr1 ++ c :: tr2 → finPut a c = [fin]
    → (tr1.flatMap (sndPut a) ++ [fin]).Subperm (tr.flatMap (emitted a))
  acked : ∀ c ∈ tr, ∀ fin ∈ finPut a c, ntohl m.tcp.recvAck = fin.seqnum + 1

/--
The step is an `nclose` of the stream at `a` that finds memory and room for its FIN.
-/
def queuesFin (a : Addr) (e : Step) : Bool :=
  match e.act with
  | .nclose _ _ => queues a e.pre e.act
  | _ => false

/--
Some `nclose` has queued its FIN, what still waits to be sent or was dropped was queued after that, and the
segment acknowledges `snd_nxt` plus one.
-/
structure Drained (a : Addr) (tr : List Step) (st : NgTcpStream) (m : Mbuf) : Prop where
  closed : ∃ c ∈ tr, queuesFin a c = true
  drained : ∀ tr1 c tr2, tr = tr1 ++ c :: tr2 → queuesFin a c = true
    → (tr.flatMap (dropped a) ++ unsent st).Subperm (tr2.flatMap (sndPut a))
  acked : ntohl m.tcp.recvAck = st.sndNxt + 1

theorem ledger_of_append {st st' : NgTcpStream} {fs : List NgTcpFragment}
    (h : st'.sndItems = st.sndItems ++ fs)
    : (unsent st ++ sndAdded (some st) (some st')).Perm (unsent st') := by
  rw [sndAdded_append h, unsent, unsent, h, List.filter_append]

theorem ledger_of_out {arpt : ArpTable Int} {st st' : NgTcpStream} {frames : List NgTcpFragment}
    (h : StreamOut arpt st frames st')
    : (unsent st).Perm (frames.filter carriesSeq ++ unsent st') := by
  cases h with
  | idle => exact .refl _
  | @requeued f rest sndbuf h h' _ =>
    have hpost : unsent { st with sndbuf := some sndbuf } = (rest ++ [f]).filter carriesSeq :=
      congrArg _ h'
    rw [hpost, unsent, h, List.filter_nil, List.nil_append]
    exact (List.perm_append_singleton f rest).symm.filter _
  | @sent f sndbuf h =>
    rw [unsent, h, ← List.singleton_append, List.filter_append]
    exact .refl _

/--
The data and FIN fragments of the stream at `a` of which the step makes frames.
-/
def framed (a : Addr) (e : Step) : List NgTcpFragment :=
  (framesOf a e.out.tcpFrames).filter carriesSeq

theorem framesOf_filter_sent {env : Env} {frames : List TcpFrame}
    (h : ∀ f ∈ frames, f.sent = env.outRoom f.stream) (a : Addr)
    : framesOf a (frames.filter TcpFrame.sent) = if env.outRoom a then framesOf a frames else [] := by
  unfold framesOf
  rw [List.filter_filter]
  split
  . next hroom =>
    congr 1
    apply List.filter_congr
    intro f hf
    cases heq : f.stream == a with
    | false => rfl
    | true =>
      rw [h f hf, beq_iff_eq.mp heq, hroom]
      rfl
  . next hfull =>
    rw [List.map_eq_nil_iff, List.filter_eq_nil_iff]
    intro f hf htake
    rw [Bool.and_eq_true, beq_iff_eq, h f hf] at htake
    rw [htake.1] at htake
    exact hfull htake.2

theorem framesOf_of_ngTcpOut {env : Env} {s s' : Stack} {frames : List TcpFrame}
    (h : ngTcpOut env s = .ok (s', frames)) (a : Addr) : framesOf a frames = nextFrame s a := by
  unfold nextFrame
  rcases (ngTcpOut_cases h).stream? a with ⟨hnone, _, hframes⟩ | ⟨st, _, hst, _, hout⟩
  . rw [hnone, hframes]
  . rw [hst]
    exact hout.frames_eq

theorem tcpFrames_of_step {s s' : Stack} {act : Act} {out : Out} (h : machine.step s act = .ok (s', out))
    (hact : ∀ env, act ≠ .ngTcpOut env) : out.tcpFrames = [] := by
  cases stepped_of_step h with
  | ngTcpOut => exact absurd rfl (hact _)
  | _ => rfl

/-- `ring->out` takes the frame, or it is dropped. -/
theorem framed_eq {a : Addr} {e : Step} (hstep : machine.step e.pre e.act = .ok (e.post, e.out))
    : framed a e = emitted a e ++ dropped a e := by
  unfold framed emitted dropped
  split
  . next env hact =>
    rw [hact] at hstep
    rcases map_eq_ok hstep with ⟨⟨t, frames⟩, hcall, heq⟩
    rw [Prod.mk.injEq] at heq
    have hframes : e.out.tcpFrames = frames := by rw [← heq.2]
    rw [hframes, framesOf_filter_sent (sent_of_ngTcpOutLoop hcall), ← framesOf_of_ngTcpOut hcall]
    split <;> simp
  . next hact =>
    rw [tcpFrames_of_step hstep hact]
    rfl

/-- No step but a removal loses a fragment. -/
theorem ledger_of_step {a : Addr} {e : Step} (hstep : machine.step e.pre e.act = .ok (e.post, e.out))
    (hkeep : ∀ st, e.pre.stream? a = some st → ∃ st', e.post.stream? a = some st')
    : (unsentOn a e.pre ++ sndPut a e).Perm (framed a e ++ unsentOn a e.post) := by
  have h := streamStep_of_step hstep a
  unfold unsentOn sndPut framed
  generalize framesOf a e.out.tcpFrames = frames at h ⊢
  generalize e.pre.stream? a = o at h hkeep ⊢
  generalize e.post.stream? a = o' at h hkeep ⊢
  cases h with
  | same => cases o <;> simp [sndAdded, unsent]
  | opened _ _ _ _ hsnd _ _ => simp [sndAdded, unsent, hsnd]
  | halfOpen _ hcreate _ => simp [sndAdded, unsent, hcreate.sndItems]
  -- The SYN-ACK takes up no place among data and FIN.
  | synAck _ _ hsnd _ =>
    have hseq : ∀ syn tcphdr, carriesSeq (synAckFragment syn tcphdr) = false := by
      intro syn tcphdr
      simp only [carriesSeq, synAckFragment]
      decide
    simp [sndAdded, unsent, NgTcpStream.sndItems, hsnd, hseq]
  | bound | listened | accepted | read | handshake => simp [sndAdded, unsent, NgTcpStream.sndItems]
  | sent _ _ hsnd =>
    apply ledger_of_append
    exact hsnd
  | fin _ _ _ _ _ _ hsnd =>
    apply ledger_of_append
    exact hsnd
  | segment _ _ _ _ h =>
    rcases h.acks with ⟨acks, hitems, _, _⟩
    exact ledger_of_append hitems
  | removed | lastAck =>
    rcases hkeep _ rfl with ⟨_, hnone⟩
    contradiction
  | out _ h =>
    rw [sndAdded_eq_nil h.length_sndItems_le, List.append_nil]
    exact ledger_of_out h

/-- A stream that is there at the end of a run has been there since it was opened. -/
theorem kept_of_run {s t : Stack} {tr : List Step} {a : Addr} {st' : NgTcpStream} (h : Run s tr t)
    (hst' : t.stream? a = some st') {e : Step} (he : e ∈ tr) {st : NgTcpStream}
    (hst : e.pre.stream? a = some st) : ∃ st1, e.post.stream? a = some st1 := by
  rcases List.append_of_mem he with ⟨tr1, tr2, rfl⟩
  rcases h.at_edge with ⟨_, hstep, hrest⟩
  have hknown : e.post.known (.stream a) :=
    known_of_stepped (stepped_of_step hstep) (known_of_stream? hst)
  exact stream?_earlier hrest hknown hst'

theorem ledger_of_run {t : Stack} {tr : List Step} {a : Addr} {st : NgTcpStream}
    (h : Run .init tr t) (hst : t.stream? a = some st)
    : (tr.flatMap (sndPut a)).Perm (tr.flatMap (emitted a) ++ (tr.flatMap (dropped a) ++ unsent st)) := by
  have hledger := h.ledger (unsentOn a) (sndPut a) (fun e => emitted a e ++ dropped a e) (by
    intro e he
    rw [← framed_eq (h.step_of_mem he)]
    exact ledger_of_step (h.step_of_mem he) (fun _ hpre => kept_of_run h hst he hpre))
  have hinit : unsentOn a .init = [] := rfl
  rw [hinit, List.nil_append, unsentOn, hst] at hledger
  rw [← List.append_assoc]
  exact hledger.trans ((List.flatMap_append_perm tr (emitted a) (dropped a)).symm.append_right _)

/--
What `nclose` makes of the status of a stream, and what it can become after that.
-/
structure Closing (st : NgTcpStream) : Prop where
  synRcvd : st.status ≠ .synRcvd
  established : st.status ≠ .established

theorem closing_of_step {s s' : Stack} {act : Act} {out : Out} {a : Addr} {st st' : NgTcpStream}
    (hstep : machine.step s act = .ok (s', out)) (hst : s.stream? a = some st)
    (hst' : s'.stream? a = some st') (hclosing : Closing st) : Closing st' ∧ st'.sndNxt = st.sndNxt := by
  have h := streamStep_of_step hstep a
  rw [hst, hst'] at h
  generalize framesOf a out.tcpFrames = frames at h
  cases h with
  | same | accepted | sent | read => exact ⟨⟨hclosing.1, hclosing.2⟩, rfl⟩
  | bound | listened | fin => exact ⟨⟨by simp, by simp⟩, rfl⟩
  | handshake _ _ _ hstatus _ => exact absurd hstatus hclosing.synRcvd
  | segment _ _ _ hstatus _ => exact absurd hstatus hclosing.established
  | out _ h => cases h <;> exact ⟨⟨hclosing.1, hclosing.2⟩, rfl⟩

theorem closing_of_run {s t : Stack} {tr : List Step} {a : Addr} {st st' : NgTcpStream}
    (h : Run s tr t) (hst : s.stream? a = some st) (hclosing : Closing st)
    (hst' : t.stream? a = some st') : Closing st' ∧ st'.sndNxt = st.sndNxt := by
  induction h generalizing st' with
  | nil =>
    rw [hst] at hst'
    cases hst'
    exact ⟨hclosing, rfl⟩
  | snoc h hstep ih =>
    rcases stream?_before (known_of_run h (known_of_stream? hst)) hstep hst' with ⟨st1, hst1⟩
    rcases ih hst1 with ⟨hclosing1, hnxt1⟩
    rcases closing_of_step hstep hst1 hst' hclosing1 with ⟨hclosing', hnxt'⟩
    exact ⟨hclosing', hnxt'.trans hnxt1⟩

/--
The step queues the FIN of the stream at `a`, numbered `seqnum`.
-/
structure PutsFin (a : Addr) (e : Step) (seqnum : UInt32) : Prop where
  put : ∃ fin, finPut a e = [fin] ∧ sndPut a e = [fin] ∧ fin.seqnum = seqnum
  after : ∃ st', e.post.stream? a = some st' ∧ Closing st' ∧ st'.sndNxt = seqnum

theorem finPut_cases {a : Addr} {e : Step} (hstep : machine.step e.pre e.act = .ok (e.post, e.out))
    : queuesFin a e = false ∧ finPut a e = []
      ∨ queuesFin a e = true ∧ ∃ seqnum, PutsFin a e seqnum := by
  unfold queuesFin finPut
  cases hact : e.act with
  | nclose env fd =>
    dsimp
    cases hst : e.pre.stream? a with
    | none => simp [queues, sndPut, hst, sndAdded]
    | some st =>
      have hputs := putsNext_of_step hstep hst
      rw [PutsNext, hact, ← hst] at hputs
      change sndPut a e = _ at hputs
      cases hq : queues a e.pre (.nclose env fd) with
      | false => simpa [hq] using hputs
      | true =>
        rw [hq, if_pos rfl] at hputs
        have hfin : finPut a e = [st.queuedFragment (.nclose env fd)] := by
          rw [finPut, hact]
          exact hputs
        refine .inr ⟨rfl, st.sndNxt, ⟨_, hfin, hputs, (queuedFragment_range st hq).1⟩, ?_⟩
        have h := streamStep_of_step hstep a
        rw [hst, hact] at h
        generalize framesOf a e.out.tcpFrames = frames at h
        rw [sndPut, hst] at hputs
        generalize e.post.stream? a = o' at h hputs ⊢
        cases h with
        | same => simp [sndAdded] at hputs
        | fin => exact ⟨_, rfl, ⟨by simp, by simp⟩, rfl⟩
        | removed => simp [sndAdded] at hputs
        | bound hact' _ | listened hact' _ | accepted hact' _ _ | sent hact' _ _ | read hact' _ _
        | handshake hact' _ _ _ _ | segment hact' _ _ _ _ | lastAck hact' _ _ _ _ | out hact' _ =>
          contradiction
  | _ => simp

theorem finPut_of_run {s t : Stack} {tr1 tr2 : List Step} {c : Step} {a : Addr} {st : NgTcpStream}
    (h : Run s (tr1 ++ c :: tr2) t) (hst : t.stream? a = some st)
    : queuesFin a c = false ∧ finPut a c = []
      ∨ queuesFin a c = true
        ∧ ∃ fin, finPut a c = [fin] ∧ sndPut a c = [fin] ∧ fin.seqnum = st.sndNxt := by
  rcases h.at_edge with ⟨_, hstep, hrest⟩
  rcases finPut_cases hstep with hnone | ⟨hq, seqnum, ⟨fin, hfin, hput, hseq⟩, st1, hst1, hclosing, hnxt⟩
  . exact .inl hnone
  . refine .inr ⟨hq, fin, hfin, hput, ?_⟩
    rw [hseq, (closing_of_run hrest hst1 hclosing hst).2, hnxt]

theorem tornDown_iff {s : Stack} {tr : List Step} {a : Addr} {st : NgTcpStream} (h : Run .init tr s)
    (hst : s.stream? a = some st) (m : Mbuf) : TornDown a tr m ↔ Drained a tr st m := by
  have hfin {tr1 c tr2} (htr : tr = tr1 ++ c :: tr2) := finPut_of_run (htr ▸ h) hst
  have hmem {c} (hc : c ∈ tr) : queuesFin a c = false ∧ finPut a c = []
      ∨ queuesFin a c = true
        ∧ ∃ fin, finPut a c = [fin] ∧ sndPut a c = [fin] ∧ fin.seqnum = st.sndNxt := by
    rcases List.append_of_mem hc with ⟨tr1, tr2, htr⟩
    exact hfin htr
  have hclosed : (∃ c ∈ tr, finPut a c ≠ []) ↔ ∃ c ∈ tr, queuesFin a c = true := by
    apply exists_congr
    intro c
    rw [and_congr_right_iff]
    intro hc
    rcases hmem hc with ⟨hq, hnone⟩ | ⟨hq, fin, hput, _⟩
    . simp [hq, hnone]
    . simp [hq, hput]
  -- The fragments up to the FIN are those that went in first, the others those that went in later.
  have hsplit {tr1 tr2 : List Step} {c : Step} {fin : NgTcpFragment} (htr : tr = tr1 ++ c :: tr2) (hput : sndPut a c = [fin])
      : (tr1.flatMap (sndPut a) ++ [fin]).Subperm (tr.flatMap (emitted a))
        ↔ (tr.flatMap (dropped a) ++ unsent st).Subperm (tr2.flatMap (sndPut a)) := by
    apply subperm_iff_of_ledger
    have hledger := ledger_of_run h hst
    have hputs : tr.flatMap (sndPut a)
        = tr1.flatMap (sndPut a) ++ [fin] ++ tr2.flatMap (sndPut a) := by
      rw [htr, List.flatMap_append, List.flatMap_cons, hput, List.append_assoc]
    rw [hputs] at hledger
    exact hledger
  constructor
  . intro htorn
    refine ⟨hclosed.mp htorn.closed, ?_, ?_⟩
    . intro tr1 c tr2 htr hq
      rcases hfin htr with ⟨hq', _⟩ | ⟨_, fin, hput, hsnd, _⟩
      . rw [hq] at hq'
        contradiction
      . exact (hsplit htr hsnd).mp (htorn.sent tr1 c tr2 fin htr hput)
    . rcases htorn.closed with ⟨c, hc, hput⟩
      rcases hmem hc with ⟨_, hnone⟩ | ⟨_, fin, hfinput, _, hseq⟩
      . exact absurd hnone hput
      . rw [← hseq]
        exact htorn.acked c hc fin (by simp [hfinput])
  . intro hdrained
    refine ⟨hclosed.mpr hdrained.closed, ?_, ?_⟩
    . intro tr1 c tr2 fin htr hput
      rcases hfin htr with ⟨_, hnone⟩ | ⟨hq, fin', hput', hsnd, _⟩
      . rw [hnone] at hput
        contradiction
      . rw [hput'] at hput
        cases hput
        exact (hsplit htr hsnd).mpr (hdrained.drained tr1 c tr2 htr hq)
    . intro c hc fin hmemfin
      rcases hmem hc with ⟨_, hnone⟩ | ⟨_, fin', hput, _, hseq⟩
      . simp [hnone] at hmemfin
      . rw [hput, List.mem_singleton] at hmemfin
        rw [hmemfin, hseq]
        exact hdrained.acked

theorem removed_iff {a : Addr} {e : Step} {m : Mbuf}
    (hstep : machine.step e.pre e.act = .ok (e.post, e.out)) (hseg : segmentFor a e = some m)
    : e.post.stream? a = none
        ↔ ∃ st, e.pre.stream? a = some st ∧ st.status = .lastAck
          ∧ hasFlag m.tcp.tcpFlags rteTcpAckFlag = true := by
  rcases segmentFor_eq_some_iff.mp hseg with ⟨env, st, hact, hcksum, hfind⟩
  have hst := stream?_of_ngTcpStreamOf hfind
  constructor
  . intro hnone
    have h := streamStep_of_step hstep a
    rw [hst, hnone, hact] at h
    generalize framesOf a e.out.tcpFrames = frames at h
    cases h with
    | removed hact' _ _ => contradiction
    | lastAck hact' _ _ hstatus hack =>
      cases hact'
      exact ⟨st, hst, hstatus, hack⟩
  . rintro ⟨st', hst', hstatus, hack⟩
    rw [hst] at hst'
    cases hst'
    rcases segmentProcessed_of_step hstep hact with ⟨t, h, hpost⟩
    rw [hpost]
    cases h with
    | ignored h =>
      have := h hcksum a st hfind
      simp [ignores, hstatus, hack] at this
    | halfOpen _ hfind' hstatus' | synAck _ hfind' hstatus' | handshake _ hfind' hstatus'
    | segment _ hfind' hstatus' =>
      rw [hfind] at hfind'
      cases hfind'
      rw [hstatus] at hstatus'
      contradiction
    | lastAck _ hfind' =>
      rw [hfind] at hfind'
      cases hfind'
      simp [Stack.stream?]

/--
A connection is torn down safely exactly when each ACK that meets it in LAST_ACK meets it drained.
-/
theorem teardown_iff {t : Stack} {tr : List Step} {a : Addr} (h : Run .init tr t)
    : (∀ tr1 f tr2 m, tr = tr1 ++ f :: tr2 → segmentFor a f = some m → f.post.stream? a = none
          → TornDown a tr1 m)
        ↔ ∀ tr1 f tr2 m st, tr = tr1 ++ f :: tr2 → segmentFor a f = some m
          → f.pre.stream? a = some st → st.status = .lastAck
          → hasFlag m.tcp.tcpFlags rteTcpAckFlag = true → Drained a tr1 st m := by
  constructor
  . intro hall tr1 f tr2 m st htr hseg hst hstatus hack
    rcases (htr ▸ h).at_edge with ⟨hrun, hstep, _⟩
    rw [← tornDown_iff hrun hst]
    apply hall tr1 f tr2 m htr hseg
    exact (removed_iff hstep hseg).mpr ⟨st, hst, hstatus, hack⟩
  . intro hall tr1 f tr2 m htr hseg hnone
    rcases (htr ▸ h).at_edge with ⟨hrun, hstep, _⟩
    rcases (removed_iff hstep hseg).mp hnone with ⟨st, hst, hstatus, hack⟩
    rw [tornDown_iff hrun hst]
    exact hall tr1 f tr2 m st htr hseg hst hstatus hack

/--
Where the step frees the stream at `a`, it meets it drained, as a test.
-/
def drainedAt (a : Addr) (tr : List Step) (f : Step) : Bool :=
  match segmentFor a f, f.pre.stream? a with
  | some m, some st =>
    st.status != .lastAck
      || tr.any (queuesFin a) && (tr.flatMap (dropped a) ++ unsent st).isEmpty
        && ntohl m.tcp.recvAck == st.sndNxt + 1
  | _, _ => true

theorem drained_of_drainedAt {a : Addr} {tr : List Step} {f : Step} {m : Mbuf} {st : NgTcpStream}
    (h : drainedAt a tr f = true) (hseg : segmentFor a f = some m) (hst : f.pre.stream? a = some st)
    (hstatus : st.status = .lastAck) : Drained a tr st m := by
  simp only [drainedAt, hseg, hst, hstatus, bne_self_eq_false, Bool.false_or, Bool.and_eq_true,
    List.any_eq_true, List.isEmpty_iff, beq_iff_eq] at h
  refine ⟨h.1.1, ?_, h.2⟩
  intro tr1 c tr2 _ _
  rw [h.1.2]
  exact List.nil_subperm

/-- A reply and a FIN are sent and acknowledged before the connection goes. -/
theorem teardown_drained
    : ∃ tr t, Run .init tr t
        ∧ (∃ f ∈ tr, ∃ m, segmentFor 1 f = some m ∧ f.post.stream? 1 = none)
        ∧ ∀ tr1 f tr2 m, tr = tr1 ++ f :: tr2 → segmentFor 1 f = some m → f.post.stream? 1 = none
          → TornDown 1 tr1 m := by
  have hcheck : machine.check .init (serverUp ++ .ngArpEntryInsert true 7 (.replicate 6 1)
      :: connect 5 ++ [.naccept 3,
      .ngTcpProcess .granting (.segment 5 (rteTcpPshFlag ||| rteTcpAckFlag) 101 1001 [1]),
      .nsend .granting 5 [1, 2],
      .ngTcpProcess .granting (.segment 5 (rteTcpPshFlag ||| rteTcpAckFlag) 102 1003 [1]),
      .nclose .granting 5]
      ++ List.replicate 5 (.ngTcpOut .granting)
      ++ [.ngTcpProcess .granting (.segment 5 rteTcpAckFlag 103 1004 [])])
      (fun tr _ => everywhere (drainedAt 1) tr
        && tr.any (fun f => (segmentFor 1 f).isSome && (f.post.stream? 1).isNone)) = true := by
    decide +kernel
  rcases Machine.exists_run_of_check hcheck with ⟨tr, t, hrun, _, htest⟩
  simp only [Bool.and_eq_true, List.any_eq_true, Option.isSome_iff_exists,
    Option.isNone_iff_eq_none] at htest
  rcases htest with ⟨hdrained, f, hf, ⟨m, hseg⟩, hnone⟩
  refine ⟨tr, t, hrun, ⟨f, hf, m, hseg, hnone⟩, ?_⟩
  apply (teardown_iff hrun).mpr
  intro tr1 f tr2 m st htr hseg hst hstatus _
  exact drained_of_drainedAt (of_everywhere hdrained htr) hseg hst hstatus

/-- A late ACK removes a connection whose FIN has not been sent. -/
theorem not_teardown_of_late_ack
    : ¬∀ tr t a, Run .init tr t → ∀ tr1 f tr2 m, tr = tr1 ++ f :: tr2 → segmentFor a f = some m
        → f.post.stream? a = none → TornDown a tr1 m := by
  -- An ACK that acknowledges neither the data nor the FIN removes the stream before either is sent.
  have hcheck : machine.check .init (serverUp ++ connect 5 ++ [.naccept 3,
      .nsend .granting 5 [1, 2],
      .nclose .granting 5])
      (fun tr s => (tr.flatMap (emitted 1)).isEmpty
        && machine.check s [.ngTcpProcess .granting (.segment 5 rteTcpAckFlag 101 1001 [])]
          (fun tr _ => tr.all (fun f => (segmentFor 1 f).isSome && (f.post.stream? 1).isNone)))
        = true := by
    decide +kernel
  rcases Machine.exists_run_of_check hcheck with ⟨tr1, s, hrun1, _, htest⟩
  rw [Bool.and_eq_true, List.isEmpty_iff] at htest
  rcases htest with ⟨hempty, htest⟩
  rcases Machine.exists_run_of_check htest with ⟨tr2, t, hrun2, hacts, htest⟩
  rw [List.map_eq_singleton_iff] at hacts
  rcases hacts with ⟨f, rfl, _⟩
  simp only [List.all_cons, List.all_nil, Bool.and_true, Bool.and_eq_true,
    Option.isSome_iff_exists, Option.isNone_iff_eq_none] at htest
  rcases htest with ⟨⟨m, hseg⟩, hnone⟩
  intro hall
  have htorn := hall _ t 1 (hrun1.append hrun2) tr1 f [] m rfl hseg hnone
  rcases htorn.closed with ⟨c, hc, hput⟩
  rcases List.append_of_mem hc with ⟨tr3, tr4, htr⟩
  rcases finPut_cases (hrun1.step_of_mem hc) with ⟨_, hnone⟩ | ⟨_, _, ⟨fin, hfin, _⟩, _⟩
  . exact hput hnone
  . have hsent := htorn.sent tr3 c tr4 fin htr hfin
    rw [hempty] at hsent
    have := hsent.length_le
    simp at this

end NgStack
