import DpdkLearning.Stack.Lemmas.Descriptors

/-!
This module contains the way of a connection from its SYN to `naccept`: what a run has seen of a stream
when it hands it out.
-/

open Lib

namespace NgStack

/--
The two streams are connections of the same peer to the same local port.
-/
structure SameTuple (st st' : NgTcpStream) : Prop where
  sip : st.sip = st'.sip
  dip : st.dip = st'.dip
  sport : st.sport = st'.sport
  dport : st.dport = st'.dport

theorem SameTuple.refl (st : NgTcpStream) : SameTuple st st :=
  ⟨rfl, rfl, rfl, rfl⟩

theorem SameTuple.trans {st1 st2 st3 : NgTcpStream} (h1 : SameTuple st1 st2)
    (h2 : SameTuple st2 st3) : SameTuple st1 st3 :=
  ⟨h1.sip.trans h2.sip, h1.dip.trans h2.dip, h1.sport.trans h2.sport, h1.dport.trans h2.dport⟩

/--
The step creates the stream at `a` for the 4-tuple of `st` and queues a SYN-ACK numbered `seqnum`.
-/
structure SynAcked (e : Step) (a : Addr) (st : NgTcpStream) (seqnum : UInt32) : Prop where
  before : e.pre.stream? a = none
  after : ∃ syn f, e.post.stream? a = some syn ∧ SameTuple syn st ∧ syn.sndItems = [f]
    ∧ f.tcpFlags = rteTcpSynFlag ||| rteTcpAckFlag ∧ f.seqnum = seqnum

/--
The step processes a segment with the ACK flag for the 4-tuple of `st` that acknowledges `acknum`.
-/
structure Acknowledged (e : Step) (st : NgTcpStream) (acknum : UInt32) : Prop where
  segment : ∃ env m, e.act = .ngTcpProcess env m ∧ cksumOk env m = true
    ∧ hasFlag m.tcp.tcpFlags rteTcpAckFlag = true
    ∧ m.ip.srcAddr = st.sip ∧ m.ip.dstAddr = st.dip ∧ m.tcp.srcPort = st.sport
    ∧ m.tcp.dstPort = st.dport ∧ ntohl m.tcp.recvAck = acknum

theorem SynAcked.congr {e : Step} {a : Addr} {st st' : NgTcpStream} {seqnum : UInt32}
    (h : SynAcked e a st seqnum) (hsame : SameTuple st st') : SynAcked e a st' seqnum := by
  rcases h.after with ⟨syn, f, hpost, htuple, hf⟩
  exact ⟨h.before, syn, f, hpost, htuple.trans hsame, hf⟩

theorem Acknowledged.congr {e : Step} {st st' : NgTcpStream} {acknum : UInt32}
    (h : Acknowledged e st acknum) (hsame : SameTuple st st') : Acknowledged e st' acknum := by
  rcases h.segment with ⟨env, m, hact, hcksum, hack, hsip, hdip, hsport, hdport, hrecv⟩
  exact ⟨env, m, hact, hcksum, hack, hsip.trans hsame.sip, hdip.trans hsame.dip,
    hsport.trans hsame.sport, hdport.trans hsame.dport, hrecv⟩

/--
The run has queued a SYN-ACK for the stream and has then processed a segment that acknowledges it.
-/
def HandshakeDone (tr : List Step) (a : Addr) (st : NgTcpStream) : Prop :=
  ∃ tr1 c tr2 k tr3 seqnum, tr = tr1 ++ c :: (tr2 ++ k :: tr3) ∧ SynAcked c a st seqnum
    ∧ Acknowledged k st (seqnum + 1)

/--
The run has queued a SYN-ACK for the stream.
-/
def SynAckSent (tr : List Step) (a : Addr) (st : NgTcpStream) : Prop :=
  ∃ tr1 c tr2, tr = tr1 ++ c :: tr2 ∧ SynAcked c a st st.sndNxt

theorem HandshakeDone.mono {tr : List Step} {a : Addr} {st st' : NgTcpStream}
    (h : HandshakeDone tr a st) (hsame : SameTuple st st') (e : Step)
    : HandshakeDone (tr ++ [e]) a st' := by
  rcases h with ⟨tr1, c, tr2, k, tr3, seqnum, rfl, hsyn, hack⟩
  exact ⟨tr1, c, tr2, k, tr3 ++ [e], seqnum, by simp, hsyn.congr hsame, hack.congr hsame⟩

theorem SynAckSent.mono {tr : List Step} {a : Addr} {st st' : NgTcpStream}
    (h : SynAckSent tr a st) (hsame : SameTuple st st') (hnxt : st'.sndNxt = st.sndNxt) (e : Step)
    : SynAckSent (tr ++ [e]) a st' := by
  rcases h with ⟨tr1, c, tr2, rfl, hsyn⟩
  refine ⟨tr1, c, tr2 ++ [e], by simp, ?_⟩
  rw [hnxt]
  exact hsyn.congr hsame

theorem SynAckSent.done {tr : List Step} {a : Addr} {st st' : NgTcpStream} {e : Step}
    (h : SynAckSent tr a st) (hsame : SameTuple st st')
    (hack : Acknowledged e st (st.sndNxt + 1)) : HandshakeDone (tr ++ [e]) a st' := by
  rcases h with ⟨tr1, c, tr2, rfl, hsyn⟩
  exact ⟨tr1, c, tr2, e, [], st.sndNxt, by simp, hsyn.congr hsame, hack.congr hsame⟩

/--
`naccept` hands out the stream at `a`: the stream had no descriptor and gets the one returned.
-/
structure Accepts (e : Step) (a : Addr) : Prop where
  act : ∃ sockfd, e.act = .naccept sockfd
  before : ∃ st, e.pre.stream? a = some st ∧ st.fd = -1
  after : ∃ st, e.post.stream? a = some st ∧ st.fd = e.out.ret
  nonneg : 0 ≤ e.out.ret

/--
Whatever `naccept` hands out has completed its handshake and is past it, and is not handed out again.
-/
structure AcceptsCompleted (tr : List Step) : Prop where
  handshake : ∀ tr1 e tr2 a, tr = tr1 ++ e :: tr2 → Accepts e a
    → ∃ st, e.pre.stream? a = some st ∧ HandshakeDone tr1 a st
      ∧ st.status ≠ .listen ∧ st.status ≠ .synRcvd
  once : ∀ tr1 e tr2 e' tr3 a, tr = tr1 ++ e :: (tr2 ++ e' :: tr3) → Accepts e a → ¬Accepts e' a

/--
The step does not run into what the stack leaves unchecked: an ACK for a half-open connection
acknowledges its SYN-ACK, and the connection `naccept` finds first is not half-open. No socket is
opened without a descriptor, and none is bound, made to listen or closed through the descriptor `-1`
that all connections have before they are accepted.
-/
def acceptCond (s : Stack) : Act → Bool
  | .ngTcpProcess env m =>
    match ngTcpStreamOf s m with
    | some (_, st) =>
      st.status != .synRcvd || !cksumOk env m || !hasFlag m.tcp.tcpFlags rteTcpAckFlag
        || ntohl m.tcp.recvAck == st.sndNxt + 1
    | none => true
  | .naccept sockfd =>
    match getHostinfoFromfd s sockfd with
    | some (.stream _ listener) =>
      match getAcceptTcb s listener.dport with
      | some (_, apt) => apt.status != .listen && apt.status != .synRcvd
      | none => true
    | _ => true
  | .nsocket _ _ => (getFdFrombitmap s.fdTable).1 != -1
  | .nbind sockfd _ _ => sockfd != -1
  | .nlisten sockfd => sockfd != -1
  | .nclose _ fd => fd != -1
  | _ => true

/--
What a run has seen of a stream that waits to be accepted.
-/
inductive Pending (tr : List Step) (a : Addr) (st : NgTcpStream) : Prop where
  | created (hstatus : st.status = .listen)
  | halfOpen (hstatus : st.status = .synRcvd) (h : SynAckSent tr a st)
  | completed (hlisten : st.status ≠ .listen) (hsyn : st.status ≠ .synRcvd)
    (h : HandshakeDone tr a st)

theorem Pending.mono {tr : List Step} {a : Addr} {st st' : NgTcpStream} (h : Pending tr a st)
    (hsame : SameTuple st st') (hstatus : st'.status = st.status) (hnxt : st'.sndNxt = st.sndNxt)
    (e : Step) : Pending (tr ++ [e]) a st' := by
  cases h with
  | created h => exact .created (hstatus.trans h)
  | halfOpen h hsent => exact .halfOpen (hstatus.trans h) (hsent.mono hsame hnxt e)
  | completed hlisten hsyn hdone =>
    rw [← hstatus] at hlisten hsyn
    exact .completed hlisten hsyn (hdone.mono hsame e)

/-- One step, seen by a stream that waits to be accepted after it. -/
theorem pending_step {tr : List Step} {e : Step} {a : Addr} {frames : List NgTcpFragment}
    {o : Option NgTcpStream} {st' : NgTcpStream}
    (h : StreamStep e.pre a e.act frames o (some st')) (hpre : e.pre.stream? a = o)
    (hpost : e.post.stream? a = some st') (hcond : acceptCond e.pre e.act = true)
    (hpast : ∀ st, o = some st → st.fd = -1 → Pending tr a st) (hfd : st'.fd = -1)
    : Pending (tr ++ [e]) a st' := by
  cases h with
  | same _ => exact (hpast st' rfl hfd).mono (.refl st') rfl rfl e
  | opened hact _ _ _ _ hst _ =>
    rw [hact] at hcond
    simp only [acceptCond, bne_iff_ne, ne_eq] at hcond
    rw [hst] at hfd
    contradiction
  | halfOpen _ hcreate _ => exact .created hcreate.status
  | @synAck env m syn sndbuf _ hcreate hsnd _ =>
    apply Pending.halfOpen rfl
    refine ⟨tr, e, [], rfl, hpre, _, synAckFragment syn m.tcp, hpost, .refl _, ?_, rfl, rfl⟩
    simp [NgTcpStream.sndItems, hsnd]
  | bound hact hsock =>
    rw [hact] at hcond
    simp only [acceptCond, bne_iff_ne, ne_eq] at hcond
    exact absurd (hsock.symm.trans hfd) hcond
  | listened hact hsock =>
    rw [hact] at hcond
    simp only [acceptCond, bne_iff_ne, ne_eq] at hcond
    exact absurd (hsock.symm.trans hfd) hcond
  | @accepted _ _ _ st _ _ hfind =>
    have hold := (getAcceptTcb_some hfind).2.2
    exact (hpast st rfl hold).mono (by constructor <;> rfl) (by rfl) (by rfl) e
  | @sent _ _ _ st _ _ _ _ => exact (hpast st rfl hfd).mono (by constructor <;> rfl) (by rfl) (by rfl) e
  | @read _ _ _ st _ _ _ _ => exact (hpast st rfl hfd).mono (by constructor <;> rfl) (by rfl) (by rfl) e
  | fin hact hsock _ _ _ _ _ =>
    rw [hact] at hcond
    simp only [acceptCond, bne_iff_ne, ne_eq] at hcond
    exact absurd (hsock.symm.trans hfd) hcond
  -- Without the condition the ACK may acknowledge anything but the SYN-ACK of the connection.
  | @handshake env m st hact hcksum hfind hstatus hack =>
    have htuple : m.ip.srcAddr = st.sip ∧ m.ip.dstAddr = st.dip ∧ m.tcp.srcPort = st.sport
        ∧ m.tcp.dstPort = st.dport := by
      rcases ngTcpStreamSearch_some hfind with ⟨_, hdport, ⟨hsip, hdip, hsport⟩ | hlisten⟩
      . exact ⟨hsip.symm, hdip.symm, hsport.symm, hdport.symm⟩
      . rw [hstatus] at hlisten
        contradiction
    rw [hact] at hcond
    simp only [acceptCond, hfind, hstatus, hcksum, hack, bne_self_eq_false, Bool.not_true,
      Bool.false_or, beq_iff_eq] at hcond
    cases hpast st rfl hfd with
    | created hlisten =>
      rw [hstatus] at hlisten
      contradiction
    | halfOpen _ hsent =>
      have hacked : Acknowledged e st (st.sndNxt + 1) :=
        ⟨env, m, hact, hcksum, hack, htuple.1, htuple.2.1, htuple.2.2.1, htuple.2.2.2, hcond⟩
      exact .completed (by simp) (by simp) (hsent.done ⟨rfl, rfl, rfl, rfl⟩ hacked)
    | completed _ hsyn _ => contradiction
  -- Past the handshake, no segment leads back to LISTEN or SYN_RCVD.
  | @segment _ _ st _ _ _ _ _ hstatus h =>
    have hold : st.fd = -1 := h.fd_eq.symm.trans hfd
    have hsame : SameTuple st st' := by
      rcases h.stream with ⟨_, _, _, _, _, rfl⟩
      exact ⟨rfl, rfl, rfl, rfl⟩
    have hstatus' := h.status
    rw [hstatus] at hstatus'
    cases hpast st rfl hold with
    | created hlisten =>
      rw [hstatus] at hlisten
      contradiction
    | halfOpen hsyn _ =>
      rw [hstatus] at hsyn
      contradiction
    | completed _ _ hdone =>
      apply Pending.completed _ _ (hdone.mono hsame e) <;>
        (rcases hstatus' with h' | h' <;> rw [h'] <;> decide)
  | @out _ _ st _ _ h =>
    have hold : st.fd = -1 := h.fd_eq.symm.trans hfd
    cases h with
    | idle => exact (hpast _ rfl hold).mono (.refl _) rfl rfl e
    | requeued _ _ => exact (hpast st rfl hold).mono (by constructor <;> rfl) (by rfl) (by rfl) e
    | sent _ => exact (hpast st rfl hold).mono (by constructor <;> rfl) (by rfl) (by rfl) e

/-- Along a run that meets the condition, every stream that waits has been seen. -/
theorem pending_of_run {s t : Stack} {tr : List Step} (h : Run s tr t)
    (hs : ∀ a st, s.stream? a = some st → st.fd ≠ -1)
    (hcond : ∀ e ∈ tr, acceptCond e.pre e.act = true)
    : ∀ a st, t.stream? a = some st → st.fd = -1 → Pending tr a st := by
  apply Machine.Run.history_of_guard
    (P := fun tr t => ∀ a st, t.stream? a = some st → st.fd = -1 → Pending tr a st)
    (C := fun s act => acceptCond s act = true) h
  . intro a st hst hfd
    exact absurd hfd (hs a st hst)
  . exact hcond
  . intro tr t act out u _ hP hc hstep a st hst hfd
    have hstream := streamStep_of_step hstep a
    rw [hst] at hstream
    exact pending_step (e := ⟨t, act, out, u⟩) hstream rfl hst hc (hP a) hfd

theorem getAcceptTcb_of_accepts {e : Step} {a : Addr} {frames : List NgTcpFragment}
    (h : StreamStep e.pre a e.act frames (e.pre.stream? a) (e.post.stream? a)) (hacc : Accepts e a)
    : ∃ sockfd l listener st, e.act = .naccept sockfd
        ∧ getHostinfoFromfd e.pre sockfd = some (.stream l listener)
        ∧ getAcceptTcb e.pre listener.dport = some (a, st) := by
  rcases hacc.act with ⟨sockfd, hact⟩
  rcases hacc.before with ⟨st, hst, hfd⟩
  rcases hacc.after with ⟨st', hst', hfd'⟩
  have hnonneg := hacc.nonneg
  rw [hst, hst', hact] at h
  generalize hact' : Act.naccept sockfd = act at h
  cases h with
  | same => omega
  | accepted hnaccept hinfo hfind =>
    rw [← hact', Act.naccept.injEq] at hnaccept
    subst hnaccept
    exact ⟨sockfd, _, _, _, hact, hinfo, hfind⟩
  | bound hother | listened hother | sent hother | read hother | fin hother | handshake hother
  | segment hother | out hother =>
    rw [← hact'] at hother
    contradiction

/--
The stream at `a` is not one that waits, now or later.
-/
def NotPending (s : Stack) (a : Addr) : Prop :=
  a < s.table.tcbSet.next ∧ ∀ st, s.stream? a = some st → 0 ≤ st.fd

theorem notPending_step {s s' : Stack} {act : Act} {out : Out} {a : Addr}
    (hstep : machine.step s act = .ok (s', out)) (h : NotPending s a) : NotPending s' a := by
  have hknown := known_of_stepped (stepped_of_step hstep) (o := .stream a) h.1
  refine ⟨hknown, ?_⟩
  intro st' hst'
  have hstream := streamStep_of_step hstep a
  have hnew : a ≠ s.table.tcbSet.next := Nat.ne_of_lt h.1
  have hold := h.2
  rw [hst'] at hstream
  generalize s.stream? a = o at hstream hold
  generalize framesOf a out.tcpFrames = frames at hstream
  cases hstream with
  | same => exact hold st' rfl
  | opened _ _ _ _ _ _ heq => contradiction
  | halfOpen _ _ heq => contradiction
  | synAck _ _ _ heq => contradiction
  | accepted _ _ hfind =>
    have hneg := (getAcceptTcb_some hfind).2.2
    have := hold _ rfl
    omega
  | segment _ _ _ _ h =>
    rw [h.fd_eq]
    exact hold _ rfl
  | out _ h =>
    rw [h.fd_eq]
    exact hold _ rfl
  | bound | listened | sent | read | fin | handshake =>
    have := hold _ rfl
    exact this

/--
A run from a state in which no stream waits, all of whose steps meet the condition, hands out only
connections that have completed their handshake, and each of them once.
-/
theorem naccept_of_handshake {s t : Stack} {tr : List Step} (h : Run s tr t)
    (hs : ∀ a st, s.stream? a = some st → st.fd ≠ -1)
    (hcond : ∀ e ∈ tr, acceptCond e.pre e.act = true) : AcceptsCompleted tr := by
  constructor
  . rintro tr1 e tr2 a rfl hacc
    rcases h.at_edge with ⟨hrun, hstep, _⟩
    rcases getAcceptTcb_of_accepts (streamStep_of_step hstep a) hacc with
      ⟨sockfd, l, listener, st, hact, hinfo, hfind⟩
    rcases getAcceptTcb_some hfind with ⟨hst, _, hfd⟩
    have hguard := hcond e (by simp)
    simp only [hact, acceptCond, hinfo, hfind, Bool.and_eq_true, bne_iff_ne, ne_eq] at hguard
    have hpending := pending_of_run hrun hs (fun e he => hcond e (List.mem_append_left _ he))
      a st hst hfd
    cases hpending with
    | created hlisten => exact absurd hlisten hguard.1
    | halfOpen hsyn _ => exact absurd hsyn hguard.2
    | completed hlisten hsyn hdone => exact ⟨st, hst, hdone, hlisten, hsyn⟩
  . rintro tr1 e tr2 e' tr3 a rfl hacc hacc'
    rcases h.at_edge with ⟨_, _, hrest⟩
    have hrun := hrest.at_edge.1
    have hpost : NotPending e.post a := by
      rcases hacc.after with ⟨st, hst, hfd⟩
      refine ⟨ObjList.lt_next_of_get? hst, ?_⟩
      intro st' hst'
      rw [hst, Option.some.injEq] at hst'
      rw [← hst', hfd]
      exact hacc.nonneg
    have hpre := hrun.rel (R := fun s s' => NotPending s a → NotPending s' a) (fun _ => id)
      (fun h1 h2 => h2 ∘ h1) notPending_step hpost
    rcases hacc'.before with ⟨st, hst, hfd⟩
    have := hpre.2 st hst
    omega

/-- Two clients connect one after the other and are accepted in turn. -/
theorem naccept_of_handshake_two
    : ∃ tr t, Run .init tr t
        ∧ tr.map Edge.act = serverUp ++ connect 5 ++ [.naccept 3] ++ connect 6 ++ [.naccept 3]
        ∧ AcceptsCompleted tr := by
  have hcheck : machine.check .init
      (serverUp ++ connect 5 ++ [.naccept 3] ++ connect 6 ++ [.naccept 3])
      (fun tr _ => tr.all (fun e => acceptCond e.pre e.act)) = true := by
    decide +kernel
  rcases Machine.exists_run_of_check hcheck with ⟨tr, t, hrun, hacts, hcond⟩
  rw [List.all_eq_true] at hcond
  refine ⟨tr, t, hrun, hacts, naccept_of_handshake hrun ?_ hcond⟩
  intro a st hst
  contradiction

/--
The segment that `k` processes acknowledges what is queued for the stream at `a` after `c`.
-/
def acknowledges (a : Addr) (c k : Step) : Bool :=
  match c.post.stream? a, k.act with
  | some syn, .ngTcpProcess _ m => syn.sndItems.any (fun f => ntohl m.tcp.recvAck == f.seqnum + 1)
  | _, _ => false

theorem acknowledges_of_handshake {tr : List Step} {a : Addr} {st : NgTcpStream}
    (h : HandshakeDone tr a st) : ∃ c ∈ tr, ∃ k ∈ tr, acknowledges a c k = true := by
  rcases h with ⟨tr1, c, tr2, k, tr3, seqnum, rfl, hsyn, hack⟩
  rcases hsyn.after with ⟨syn, f, hpost, _, hitems, _, hseq⟩
  rcases hack.segment with ⟨env, m, hact, _, _, _, _, _, _, hrecv⟩
  refine ⟨c, by simp, k, by simp, ?_⟩
  simp [acknowledges, hpost, hact, hitems, hrecv, hseq]

/-- An ACK of a number that was never sent completes the handshake, and the stream is handed out. -/
theorem naccept_of_wrong_ack
    : ¬∀ s t tr, Run s tr t → (∀ a st, s.stream? a = some st → st.fd ≠ -1)
        → AcceptsCompleted tr := by
  have hcheck : machine.check .init
      (serverUp ++ [.ngTcpProcess .granting (.segment 5 rteTcpSynFlag 100 0 []),
        .ngTcpProcess .granting (.segment 5 rteTcpAckFlag 101 77 [])])
      (fun tr t => tr.all (fun c => tr.all (fun k => !acknowledges 1 c k))
        && (t.stream? 1).any (fun st => st.fd == -1)
        && match naccept t 3 with
          | .error _ => false
          | .ok (ret, _, u) => ret == 5 && (u.stream? 1).any (fun st => st.fd == 5)) = true := by
    decide +kernel
  rcases Machine.exists_run_of_check hcheck with ⟨tr, t, hrun, _, htest⟩
  simp only [Bool.and_eq_true, List.all_eq_true, Bool.not_eq_true', Option.any_eq_true,
    beq_iff_eq] at htest
  rcases htest with ⟨⟨hnone, st, hst, hfd⟩, htest⟩
  split at htest
  . contradiction
  . next ret peer u haccept =>
    simp only [Bool.and_eq_true, beq_iff_eq, Option.any_eq_true] at htest
    rcases htest with ⟨rfl, st', hst', hfd'⟩
    have hstep : machine.step t (.naccept 3) = .ok (u, { ret := 5, peer }) := by
      simp [machine, Stack.step, haccept, Except.map]
    intro hall
    have haccepts : Accepts ⟨t, .naccept 3, { ret := 5, peer }, u⟩ 1 :=
      ⟨⟨3, rfl⟩, ⟨st, hst, hfd⟩, ⟨st', hst', hfd'⟩, Int.le_of_lt (by decide : (0 : Int) < 5)⟩
    have hcompleted := hall .init u _ (hrun.snoc hstep) (fun a st hst => by contradiction)
    rcases hcompleted.handshake tr _ [] 1 rfl haccepts with ⟨_, _, hdone, _⟩
    rcases acknowledges_of_handshake hdone with ⟨c, hc, k, hk, hack⟩
    rw [hnone c hc k hk] at hack
    contradiction

end NgStack
