import DpdkLearning.Stack.Lemmas.Descriptors

/-!
This module contains why an inbound segment does not bring the stack down as long as the server calls come
in the right order: the event poll before the first connection, and the listening socket until the last
handshake is over.
-/

open Lib

namespace NgStack

/--
A search for the listener of the port can end at the stream: at one in LISTEN, or at one without a peer
and a local address.
-/
def NgTcpStream.answers (st : NgTcpStream) (port : UInt16) : Bool :=
  st.dport == port && (st.status == .listen || (st.sip == 0 && st.dip == 0 && st.sport == 0))

/--
The stream at `a` is about to become `new`: each other half-open stream keeps a stream that answers for its
port.
-/
def spares (s : Stack) (a : Addr) (new : Option NgTcpStream) : Bool :=
  s.table.tcbSet.cells.all (fun (b, h) => b == a || h.status != .synRcvd
    || new.any (fun st => st.answers h.dport)
    || s.table.tcbSet.cells.any (fun (c, st) => c != a && st.answers h.dport))

/--
The stream that a step takes off its port, and what is left of it.
-/
def displaced (s : Stack) : Act → Option (Addr × Option NgTcpStream)
  | .nbind sockfd sinPort sAddr =>
    match getHostinfoFromfd s sockfd with
    | some (.stream a st) =>
      some (a, some { st with dport := sinPort, dip := sAddr, status := .closed })
    | _ => none
  | .nclose _ fd =>
    match getHostinfoFromfd s fd with
    | some (.stream a st) => if st.status = .listen then some (a, none) else none
    | _ => none
  | .ngTcpProcess env m =>
    match ngTcpStreamOf s m with
    | some (a, st) =>
      if cksumOk env m && st.status == .lastAck && hasFlag m.tcp.tcpFlags rteTcpAckFlag then
        some (a, none)
      else
        none
    | none => none
  | _ => none

/--
The segment is a SYN for a listening socket.
-/
def opensStream (s : Stack) (env : Env) (m : Mbuf) : Bool :=
  cksumOk env m && (ngTcpStreamOf s m).any (fun found => found.2.status == .listen)
    && hasFlag m.tcp.tcpFlags rteTcpSynFlag

/--
The order the server calls have to keep: no connection before there is an event poll, and no half-open
connection is left without a listener.
-/
def orderCond (s : Stack) (act : Act) : Bool :=
  (displaced s act).all (fun (a, new) => spares s a new)
    && match act with
      | .ngTcpProcess env m => !opensStream s env m || s.table.ep.isSome
      | _ => true

/--
A stream that the segment opens gets both of its rings.
-/
def ringsGranted (s : Stack) (env : Env) (m : Mbuf) : Bool :=
  !opensStream s env m
    || (ngTcpStreamCreate env s m.ip.srcAddr m.ip.dstAddr m.tcp.srcPort m.tcp.dstPort).1.any
        NgTcpStream.hasRings

/--
The allocations for a segment succeed.
-/
structure Granted (s : Stack) (env : Env) (m : Mbuf) : Prop where
  malloc : ∀ i, env.rteMalloc i = true
  rings : ringsGranted s env m = true

theorem Granted.created {s : Stack} {env : Env} {m : Mbuf} (h : Granted s env m)
    (hopens : opensStream s env m = true)
    : (ngTcpStreamCreate env s m.ip.srcAddr m.ip.dstAddr m.tcp.srcPort m.tcp.dstPort).1.any
        NgTcpStream.hasRings = true := by
  have := h.rings
  rw [ringsGranted, hopens] at this
  exact this

/--
What the handlers rely on.
-/
structure Answered (s : Stack) : Prop where
  listener : ∀ a st, s.stream? a = some st → st.status = .synRcvd
    → ∃ b st', s.stream? b = some st' ∧ st'.answers st.dport = true
  poll : ∀ a st, s.stream? a = some st → st.status = .synRcvd ∨ st.status = .established
    → s.table.ep.isSome = true
  rings : ∀ a st, s.stream? a = some st → st.hasRings = true

theorem answered_init : Answered .init where
  listener _ _ h := nomatch h
  poll _ _ h := nomatch h
  rings _ _ h := nomatch h

theorem ngTcpStreamSearch_zero_eq_none_iff (s : Stack) (port : UInt16)
    : ngTcpStreamSearch s 0 0 0 port = none
        ↔ ∀ a st, s.stream? a = some st → st.answers port = false := by
  have hfind : ngTcpStreamSearch s 0 0 0 port = none
      ↔ s.table.tcbSet.find? (fun iter =>
          iter.sip == 0 && iter.dip == 0 && iter.sport == 0 && iter.dport == port) = none
        ∧ s.table.tcbSet.find? (fun iter => iter.dport == port && iter.status == .listen) = none := by
    unfold ngTcpStreamSearch
    split
    . next hfound => simp [hfound]
    . next hnone => simp [hnone]
  rw [hfind, ObjList.find?_eq_none_iff, ObjList.find?_eq_none_iff]
  unfold NgTcpStream.answers Stack.stream?
  constructor
  . rintro ⟨hzero, hlisten⟩ a st hst
    specialize hzero a st hst
    specialize hlisten a st hst
    cases hport : st.dport == port
    . rfl
    . simp only [hport, Bool.and_true, Bool.true_and] at hzero hlisten ⊢
      rw [hzero, hlisten]
      rfl
  . intro hall
    refine ⟨fun a st hst => ?_, fun a st hst => ?_⟩
    . specialize hall a st hst
      cases hport : st.dport == port
      . apply Bool.and_false
      . simp only [hport, Bool.true_and, Bool.or_eq_false_iff] at hall
        rw [hall.2]
        rfl
    . specialize hall a st hst
      cases hport : st.dport == port
      . rfl
      . simp only [hport, Bool.true_and, Bool.or_eq_false_iff] at hall
        rw [hall.1]
        rfl

theorem exists_of_spares {s : Stack} {a b : Addr} {new : Option NgTcpStream} {h : NgTcpStream}
    (hspares : spares s a new = true) (hst : s.stream? b = some h) (hne : b ≠ a)
    (hstatus : h.status = .synRcvd)
    : new.any (fun st => st.answers h.dport) = true
      ∨ ∃ c st, c ≠ a ∧ s.stream? c = some st ∧ st.answers h.dport = true := by
  unfold spares at hspares
  rw [List.all_eq_true] at hspares
  specialize hspares (b, h) ((ObjList.get?_eq_some_iff _ _ _).mp hst)
  simp only [Bool.or_eq_true, beq_iff_eq, bne_iff_ne, ne_eq, List.any_eq_true, Bool.and_eq_true] at hspares
  rcases hspares with ((heq | hnot) | hnew) | ⟨⟨c, st⟩, hc, hca, hans⟩
  . contradiction
  . contradiction
  . exact .inl hnew
  . right
    refine ⟨c, st, hca, ?_, hans⟩
    apply (ObjList.get?_eq_some_iff _ _ _).mpr hc

/-- A stream goes on answering for its port unless the step displaces it. -/
theorem StreamStep.answers {s : Stack} {b : Addr} {act : Act} {frames : List NgTcpFragment}
    {st : NgTcpStream} {o : Option NgTcpStream} (h : StreamStep s b act frames (some st) o)
    {port : UInt16} (hans : st.answers port = true)
    : o.any (fun st' => st'.answers port) = true
      ∨ ∃ new, displaced s act = some (b, new)
        ∧ (∀ p, o.any (fun st' => st'.answers p) = new.any (fun st' => st'.answers p))
        ∧ ∀ st', o = some st' → st'.status = .closed := by
  generalize hold : some st = old at h
  cases h with
  | same =>
    subst hold
    exact .inl hans
  | opened | halfOpen | synAck => contradiction
  -- `nbind` on a listener and the removal of a stream are all that takes it off its port.
  | @bound _ sinPort sAddr _ st hact hfd hinfo =>
    right
    refine ⟨some { st with dport := sinPort, dip := sAddr, status := .closed }, ?_, fun _ => rfl, ?_⟩
    . simp only [displaced, hact, hinfo]
    . intro st' hst'
      rw [← Option.some.inj hst']
  | listened | accepted | sent | read =>
    cases hold
    left
    simp only [NgTcpStream.answers, Option.any_some] at hans ⊢
    grind
  | fin _ _ _ _ hstatus =>
    cases hold
    left
    simp only [NgTcpStream.answers, Option.any_some] at hans ⊢
    grind
  | removed hact hfd hstatus hinfo =>
    right
    refine ⟨none, ?_, fun _ => rfl, fun _ hst' => nomatch hst'⟩
    simp only [displaced, hact, hinfo, hstatus, if_true]
  | handshake _ _ _ hstatus =>
    cases hold
    left
    simp only [NgTcpStream.answers, Option.any_some, hstatus] at hans ⊢
    grind
  | segment _ _ _ hstatus h =>
    cases hold
    left
    rcases h.stream with ⟨_, _, _, _, _, rfl⟩
    simp only [NgTcpStream.answers, Option.any_some, hstatus] at hans ⊢
    grind
  | lastAck hact hcksum hfind hstatus hack =>
    right
    refine ⟨none, ?_, fun _ => rfl, fun _ hst' => nomatch hst'⟩
    simp only [displaced, hact, hfind, hcksum, hstatus, hack, beq_self_eq_true, Bool.and_self, if_true]
  | out _ h =>
    cases hold
    left
    cases h <;> exact hans

theorem answered_of_half_open {s s' : Stack} {act : Act} {out : Out} {a : Addr}
    {st st' : NgTcpStream} (h : Answered s) (hcond : orderCond s act = true)
    (hstep : machine.step s act = .ok (s', out)) (hst : s.stream? a = some st)
    (hstatus : st.status = .synRcvd) (hst' : s'.stream? a = some st')
    (hstatus' : st'.status = .synRcvd)
    : ∃ b st', s'.stream? b = some st' ∧ st'.answers st.dport = true := by
  rcases h.listener a st hst hstatus with ⟨b, listener, hb, hans⟩
  have hb' := streamStep_of_step hstep b
  rw [hb] at hb'
  rcases hb'.answers hans with hpost | ⟨new, hdisplaced, hnew, hclosed⟩
  . rw [Option.any_eq_true] at hpost
    exact ⟨b, hpost⟩
  -- The listener may be taken off its port by this step. Then the condition names another one.
  . have hne : a ≠ b := by
      rintro rfl
      rw [hclosed st' hst'] at hstatus'
      contradiction
    unfold orderCond at hcond
    rw [hdisplaced, Option.all_some, Bool.and_eq_true] at hcond
    rcases exists_of_spares hcond.1 hst hne hstatus with hstays | ⟨c, st', hcb, hc, hans'⟩
    . rw [← hnew, Option.any_eq_true] at hstays
      exact ⟨b, hstays⟩
    . have hc' := streamStep_of_step hstep c
      rw [hc] at hc'
      rcases hc'.answers hans' with hpost | ⟨_, hother, _, _⟩
      . rw [Option.any_eq_true] at hpost
        exact ⟨c, hpost⟩
      . rw [hdisplaced, Option.some.injEq, Prod.mk.injEq] at hother
        exact absurd hother.1.symm hcb

theorem answered_of_listener {s s' : Stack} {env : Env} {m : Mbuf} {out : Out} {l : Addr}
    {listener : NgTcpStream} (hstep : machine.step s (.ngTcpProcess env m) = .ok (s', out))
    (hfind : ngTcpStreamOf s m = some (l, listener)) (hlisten : listener.status = .listen)
    : ∃ b st', s'.stream? b = some st' ∧ st'.answers m.tcp.dstPort = true := by
  have hl := streamStep_of_step hstep l
  rw [stream?_of_ngTcpStreamOf hfind] at hl
  have hans : listener.answers m.tcp.dstPort = true := by
    simp [NgTcpStream.answers, hlisten, (ngTcpStreamSearch_some hfind).2.1]
  rcases hl.answers hans with hpost | ⟨_, hdisplaced, _⟩
  . rw [Option.any_eq_true] at hpost
    exact ⟨l, hpost⟩
  . simp [displaced, hfind, hlisten] at hdisplaced

theorem StreamStep.of_connected {s : Stack} {a : Addr} {act : Act} {frames : List NgTcpFragment}
    {o : Option NgTcpStream} {st' : NgTcpStream} (h : StreamStep s a act frames o (some st'))
    (hstatus : st'.status = .synRcvd ∨ st'.status = .established)
    : (∃ st, o = some st ∧ st.dport = st'.dport
        ∧ (st.status = .synRcvd ∨ st.status = .established)
        ∧ (st'.status = .synRcvd → st.status = .synRcvd))
      ∨ ∃ env m l listener, act = .ngTcpProcess env m ∧ opensStream s env m = true
          ∧ ngTcpStreamOf s m = some (l, listener) ∧ listener.status = .listen
          ∧ st'.dport = m.tcp.dstPort := by
  cases h with
  | same => exact .inl ⟨st', rfl, rfl, hstatus, id⟩
  | opened _ _ hclosed => simp [hclosed] at hstatus
  | halfOpen _ hcreate => simp [hcreate.status] at hstatus
  | @synAck env m _ _ hact hcreate _ _ l listener hcksum hfind hlisten hsyn =>
    right
    refine ⟨env, m, l, listener, hact, ?_, hfind, hlisten, hcreate.dport⟩
    simp [opensStream, hcksum, hfind, hlisten, hsyn]
  | bound | listened | fin => simp at hstatus
  | accepted | sent | read => exact .inl ⟨_, rfl, rfl, hstatus, id⟩
  | handshake _ _ _ hsyn => exact .inl ⟨_, rfl, rfl, .inl hsyn, fun _ => hsyn⟩
  | segment _ _ _ hest h =>
    left
    refine ⟨_, rfl, ?_, .inr hest, ?_⟩
    . rcases h.stream with ⟨_, _, _, _, _, rfl⟩
      rfl
    . intro hsyn
      rcases h.status with hsame | hclose
      . rw [← hsame, hsyn]
      . rw [hclose] at hsyn
        contradiction
  | out _ h =>
    left
    cases h <;> exact ⟨_, rfl, rfl, hstatus, id⟩

theorem StreamStep.hasRings {s : Stack} {a : Addr} {act : Act} {frames : List NgTcpFragment}
    {o : Option NgTcpStream} {st' : NgTcpStream} (h : StreamStep s a act frames o (some st'))
    (hrings : ∀ st, o = some st → st.hasRings = true)
    (hgranted : ∀ env m, act = .ngTcpProcess env m → Granted s env m) : st'.hasRings = true := by
  cases h with
  | same => exact hrings st' rfl
  | opened _ _ _ _ _ _ _ _ hnew => exact hnew
  | @halfOpen env m _ hact hcreate _ _ _ hcksum hfind hlisten hsyn =>
    have hcreated := (hgranted env m hact).created (by simp [opensStream, hcksum, hfind, hlisten, hsyn])
    rw [hcreate.create] at hcreated
    exact hcreated
  | @synAck env m syn _ hact hcreate _ _ _ _ hcksum hfind hlisten hsyn =>
    have hcreated := (hgranted env m hact).created (by simp [opensStream, hcksum, hfind, hlisten, hsyn])
    rw [hcreate.create, Option.any_some, NgTcpStream.hasRings, Bool.and_eq_true] at hcreated
    rw [NgTcpStream.hasRings, hcreated.2]
    rfl
  | bound | listened | accepted | handshake =>
    specialize hrings _ rfl
    exact hrings
  | sent | read | fin =>
    specialize hrings _ rfl
    rw [NgTcpStream.hasRings, Bool.and_eq_true] at hrings ⊢
    simp [hrings]
  | segment _ _ _ _ h =>
    specialize hrings _ rfl
    cases h with
    | neither => exact hrings
    | psh _ _ h | fin _ _ h =>
      rw [h.hasRings]
      exact hrings
    | both _ _ h1 h2 =>
      rw [h2.hasRings]
      exact h1.hasRings.trans hrings
  | out _ h =>
    specialize hrings _ rfl
    cases h with
    | idle => exact hrings
    | requeued | sent =>
      rw [NgTcpStream.hasRings, Bool.and_eq_true] at hrings ⊢
      simp [hrings]

theorem Answered.of_step {s s' : Stack} {act : Act} {out : Out} (h : Answered s)
    (hcond : orderCond s act = true) (hgranted : ∀ env m, act = .ngTcpProcess env m → Granted s env m)
    (hstep : machine.step s act = .ok (s', out)) : Answered s' := by
  constructor
  . intro a st' hst' hstatus'
    have ha := streamStep_of_step hstep a
    rw [hst'] at ha
    rcases ha.of_connected (.inl hstatus') with ⟨st, hst, hdport, _, hsyn⟩ | ⟨env, m, l, listener, hnew⟩
    . rw [← hdport]
      exact answered_of_half_open h hcond hstep hst (hsyn hstatus') hst' hstatus'
    . rcases hnew with ⟨rfl, _, hfind, hlisten, hdport⟩
      rw [hdport]
      exact answered_of_listener hstep hfind hlisten
  . intro a st' hst' hstatus'
    apply known_of_stepped (o := .poll) (stepped_of_step hstep)
    have ha := streamStep_of_step hstep a
    rw [hst'] at ha
    rcases ha.of_connected hstatus' with ⟨st, hst, _, hstatus, _⟩ | ⟨env, m, l, listener, hnew⟩
    . exact h.poll a st hst hstatus
    . rcases hnew with ⟨rfl, hopens, _, _, _⟩
      simp only [orderCond, hopens, Bool.and_eq_true, Bool.not_true, Bool.false_or] at hcond
      exact hcond.2
  . intro a st' hst'
    have ha := streamStep_of_step hstep a
    rw [hst'] at ha
    exact ha.hasRings (h.rings a) hgranted

theorem answered_of_run {tr : List Step} {t : Stack} (h : Run .init tr t)
    (hcond : ∀ e ∈ tr, orderCond e.pre e.act = true)
    (hgranted : ∀ e ∈ tr, ∀ env m, e.act = .ngTcpProcess env m → Granted e.pre env m)
    : Answered t := by
  refine h.invariant_of_guard
    (C := fun s act => orderCond s act = true ∧ ∀ env m, act = .ngTcpProcess env m → Granted s env m)
    answered_init ?_ ?_
  . intro e he
    exact ⟨hcond e he, hgranted e he⟩
  . intro s act out s' hs hC hstep
    apply hs.of_step hC.1 hC.2 hstep

theorem epollEventCallback_error {ep : Option Eventpoll} {sockid : Int} {event : UInt32} {e : Halt}
    (hep : ep.isSome = true) (h : epollEventCallback ep sockid event = .error e)
    : e = .wildPointer := by
  unfold epollEventCallback at h
  split at h
  . contradiction
  . split at h
    . contradiction
    . split at h
      . contradiction
      . split at h
        . contradiction
        . exact (Except.error.inj h).symm

theorem exists_ngTcpEnqueueRecvbuffer (env : Env) {st : NgTcpStream} (m : Mbuf) (tcplen : Int)
    (hrings : st.hasRings = true) : ∃ res, ngTcpEnqueueRecvbuffer env st m tcplen = .ok res := by
  rw [NgTcpStream.hasRings, Bool.and_eq_true, Option.isSome_iff_exists,
    Option.isSome_iff_exists] at hrings
  rcases hrings with ⟨_, rcvbuf, hrcvbuf⟩
  unfold ngTcpEnqueueRecvbuffer
  split
  . exact ⟨_, rfl⟩
  . rw [hrcvbuf]
    exact ⟨_, rfl⟩

theorem ngTcpSendAckpkt_ne_error {env : Env} {st : NgTcpStream} {tcphdr : RteTcpHdr} {e : Halt}
    (hsndbuf : st.sndbuf.isSome = true) : ngTcpSendAckpkt env st tcphdr ≠ .error e := by
  rw [Option.isSome_iff_exists] at hsndbuf
  rcases hsndbuf with ⟨sndbuf, hsndbuf⟩
  unfold ngTcpSendAckpkt
  split
  . nofun
  . rw [hsndbuf]
    nofun

theorem establishedStep_error {env : Env} {ep : Option Eventpoll} {st : NgTcpStream} {m : Mbuf}
    {tcplen n : Int} {e : Halt} (hep : ep.isSome = true) (hrings : st.hasRings = true)
    (h : establishedStep env ep st m tcplen n = .error e) : e = .wildPointer := by
  rcases exists_ngTcpEnqueueRecvbuffer env m tcplen hrings with ⟨⟨r, st1⟩, henq⟩
  unfold establishedStep at h
  rw [henq] at h
  dsimp only at h
  rcases ngTcpEnqueueRecvbuffer_cases henq with ⟨rcvbuf, rfl, hrcvbuf, _⟩
  split at h
  . next hcallback =>
    rw [← Except.error.inj h]
    apply epollEventCallback_error hep hcallback
  . rw [NgTcpStream.hasRings, Bool.and_eq_true] at hrings
    split at h
    . next hack =>
      refine absurd hack (ngTcpSendAckpkt_ne_error ?_)
      exact hrings.1
    . contradiction

theorem ngTcpHandleEstablished_error {env : Env} {s : Stack} {a : Addr} {st : NgTcpStream}
    {m : Mbuf} {tcplen : Int} {e : Halt} (hep : s.table.ep.isSome = true) (hrings : st.hasRings = true)
    (h : ngTcpHandleEstablished env s a st m tcplen = .error e) : e = .wildPointer := by
  unfold ngTcpHandleEstablished at h
  dsimp only at h
  by_cases hpsh : hasFlag m.tcp.tcpFlags rteTcpPshFlag = true
  . rw [if_pos hpsh] at h
    cases hstep : establishedStep env s.table.ep st m tcplen (payloadlen m.tcp tcplen) with
    | error e' =>
      rw [hstep] at h
      rw [← Except.error.inj h]
      apply establishedStep_error hep hrings hstep
    | ok p =>
      rw [hstep] at h
      dsimp only at h
      split at h
      . split at h
        . next hstep2 =>
          rw [← Except.error.inj h]
          refine establishedStep_error rfl ?_ hstep2
          exact (establishedStep_cases hstep).1.hasRings.trans hrings
        . contradiction
      . contradiction
  . rw [if_neg hpsh] at h
    dsimp only at h
    split at h
    . split at h
      . next hstep =>
        rw [← Except.error.inj h]
        refine establishedStep_error hep ?_ hstep
        exact hrings
      . contradiction
    . contradiction

theorem ngTcpHandleSynRcvd_error {s : Stack} {a : Addr} {st : NgTcpStream} {tcphdr : RteTcpHdr}
    {e : Halt} (hs : Answered s) (hst : s.stream? a = some st) (hstatus : st.status = .synRcvd)
    (h : ngTcpHandleSynRcvd s a st tcphdr = .error e) : e = .wildPointer := by
  unfold ngTcpHandleSynRcvd at h
  split at h
  . dsimp only at h
    split at h
    . next hnone =>
      rw [ngTcpStreamSearch_zero_eq_none_iff] at hnone
      rcases hs.listener a st hst hstatus with ⟨b, listener, hb, hans⟩
      by_cases hab : b = a
      . subst hab
        rw [hst, Option.some.injEq] at hb
        subst hb
        specialize hnone b { st with status := .established } (by simp [hst])
        have hsame : st.answers st.dport = { st with status := .established }.answers st.dport := by
          unfold NgTcpStream.answers
          rw [hstatus]
          rfl
        rw [hsame, hnone] at hans
        contradiction
      . specialize hnone b listener (by rw [stream?_modifyStream, if_neg hab, hb])
        rw [hnone] at hans
        contradiction
    . split at h
      . next hcallback =>
        rw [← Except.error.inj h]
        refine epollEventCallback_error ?_ hcallback
        exact hs.poll a st hst (.inl hstatus)
      . contradiction
  . contradiction

theorem exists_ngTcpHandleListen {env : Env} {s : Stack} {l : Addr} {st : NgTcpStream} {m : Mbuf}
    (hgranted : Granted s env m) (hcksum : cksumOk env m = true)
    (hfind : ngTcpStreamOf s m = some (l, st)) (hlisten : st.status = .listen)
    : ∃ res, ngTcpHandleListen env s st m.tcp m.ip = .ok res := by
  unfold ngTcpHandleListen
  cases hsyn : hasFlag m.tcp.tcpFlags rteTcpSynFlag with
  | false => exact ⟨_, rfl⟩
  | true =>
    have hcreated := hgranted.created (by simp [opensStream, hcksum, hfind, hlisten, hsyn])
    rw [if_pos rfl, if_pos hlisten]
    generalize ngTcpStreamCreate env s m.ip.srcAddr m.ip.dstAddr m.tcp.srcPort m.tcp.dstPort = created
      at hcreated
    rcases created with ⟨_ | syn, names⟩
    . contradiction
    . rw [Option.any_some, NgTcpStream.hasRings, Bool.and_eq_true, Option.isSome_iff_exists] at hcreated
      rcases hcreated with ⟨⟨sndbuf, hsndbuf⟩, _⟩
      simp only [hgranted.malloc, hsndbuf]
      exact ⟨_, rfl⟩

theorem ngTcpProcess_error {env : Env} {s : Stack} {m : Mbuf} {e : Halt} (hs : Answered s)
    (hgranted : Granted s env m) (h : ngTcpProcess env s m = .error e) : e = .wildPointer := by
  unfold ngTcpProcess at h
  split at h
  . contradiction
  . next hcksum =>
    split at h
    . contradiction
    . next a st hfind =>
      split at h
      . next e' hdispatch =>
        rw [← Except.error.inj h]
        have hst := stream?_of_ngTcpStreamOf hfind
        simp only [Bool.not_eq_true', Bool.not_eq_false] at hcksum
        unfold ngTcpDispatch at hdispatch
        cases hstatus : st.status with
        | listen =>
          rcases exists_ngTcpHandleListen hgranted hcksum hfind hstatus with ⟨res, hres⟩
          simp [hstatus, hres] at hdispatch
        | synRcvd =>
          simp only [hstatus] at hdispatch
          apply ngTcpHandleSynRcvd_error hs hst hstatus hdispatch
        | established =>
          simp only [hstatus] at hdispatch
          refine ngTcpHandleEstablished_error ?_ (hs.rings a st hst) hdispatch
          exact hs.poll a st hst (.inr hstatus)
        | _ => simp [hstatus] at hdispatch
      . contradiction

/-- No segment makes `ng_tcp_process` exit or follow a `NULL` in a state that the server calls reach in an
order that keeps to the condition. -/
theorem ngTcpProcess_survives {tr : List Step} {t : Stack} {env : Env} {m : Mbuf}
    (h : Run .init tr t) (hcond : ∀ e ∈ tr, orderCond e.pre e.act = true)
    (hgranted : ∀ e ∈ tr, ∀ env m, e.act = .ngTcpProcess env m → Granted e.pre env m)
    (hlast : Granted t env m)
    : ngTcpProcess env t m ≠ .error .exited ∧ ngTcpProcess env t m ≠ .error .nullPointer := by
  have ht := answered_of_run h hcond hgranted
  constructor <;>
  . intro herror
    have := ngTcpProcess_error ht hlast herror
    contradiction

/-- A client connects to the server, and a segment of it comes in. -/
theorem ngTcpProcess_survives_connect
    : ∃ tr t, Run .init tr t ∧ tr.map Edge.act = serverUp ++ connect 5
        ∧ ngTcpProcess .granting t (.segment 5 rteTcpPshFlag 101 1001 [1]) ≠ .error .exited
        ∧ ngTcpProcess .granting t (.segment 5 rteTcpPshFlag 101 1001 [1]) ≠ .error .nullPointer := by
  have hcheck : machine.check .init (serverUp ++ connect 5) (fun tr t =>
      tr.all (fun e => orderCond e.pre e.act
        && ringsGranted e.pre .granting (.segment 5 rteTcpSynFlag 100 0 [])
        && ringsGranted e.pre .granting (.segment 5 rteTcpAckFlag 101 1001 []))
      && ringsGranted t .granting (.segment 5 rteTcpPshFlag 101 1001 [1])) = true := by
    decide +kernel
  rcases Machine.exists_run_of_check hcheck with ⟨tr, t, hrun, hacts, htest⟩
  simp only [Bool.and_eq_true, List.all_eq_true] at htest
  rcases htest with ⟨hall, hlast⟩
  refine ⟨tr, t, hrun, hacts, ngTcpProcess_survives hrun (fun e he => (hall e he).1.1) ?_ ?_⟩
  . intro e he env m hact
    have hmem := List.mem_map_of_mem (f := Edge.act) he
    rw [hacts, hact] at hmem
    simp only [serverUp, connect, List.cons_append, List.nil_append, List.mem_cons, reduceCtorEq,
      Act.ngTcpProcess.injEq, List.not_mem_nil, or_false, false_or] at hmem
    rcases hmem with ⟨rfl, rfl⟩ | ⟨rfl, rfl⟩
    . exact ⟨fun _ => rfl, (hall e he).1.2⟩
    . exact ⟨fun _ => rfl, (hall e he).2⟩
  . exact ⟨fun _ => rfl, hlast⟩

/-- A client that connects between `nlisten` and `nepoll_create` makes the stack follow a `NULL`. -/
theorem not_ngTcpProcess_survives
    : ¬∀ tr t env m, Run .init tr t
        → (∀ e ∈ tr, ∀ env m, e.act = .ngTcpProcess env m → Granted e.pre env m) → Granted t env m
        → ngTcpProcess env t m ≠ .error .exited ∧ ngTcpProcess env t m ≠ .error .nullPointer := by
  have hcheck : machine.check .init (serverUp.take 3 ++ (connect 5).take 1) (fun tr t =>
      tr.all (fun e => ringsGranted e.pre .granting (.segment 5 rteTcpSynFlag 100 0 []))
      && ringsGranted t .granting (.segment 5 rteTcpAckFlag 101 1001 [])
      && fails (ngTcpProcess .granting t (.segment 5 rteTcpAckFlag 101 1001 []))
        (· == .nullPointer)) = true := by
    decide +kernel
  rcases Machine.exists_run_of_check hcheck with ⟨tr, t, hrun, hacts, htest⟩
  simp only [Bool.and_eq_true, List.all_eq_true] at htest
  rcases htest with ⟨⟨hall, hlast⟩, hnull⟩
  intro hsurvives
  refine (hsurvives tr t .granting _ hrun ?_ ⟨fun _ => rfl, hlast⟩).2 ?_
  . intro e he env m hact
    have hmem := List.mem_map_of_mem (f := Edge.act) he
    rw [hacts, hact] at hmem
    simp only [serverUp, connect, List.take, List.cons_append, List.nil_append, List.mem_cons,
      reduceCtorEq, Act.ngTcpProcess.injEq, List.not_mem_nil, or_false, false_or] at hmem
    rcases hmem with ⟨rfl, rfl⟩
    exact ⟨fun _ => rfl, hall e he⟩
  . rcases exists_of_fails hnull with ⟨e, herror, hnull⟩
    rw [beq_iff_eq] at hnull
    rw [herror, hnull]

end NgStack
