import DpdkLearning.Stack.Impl.Server
import DpdkLearning.Stack.Balance
import DpdkLearning.Stack.Lemmas.Due
import DpdkLearning.Stack.Lemmas.Listening

/-!
This module contains the readiness that `tcp_server_entry` learns of: the connections to accept and the
fragments to read against the events the event poll reports for them.
-/

open Lib

namespace NgStack

/--
No connection to the port of the server waits to be accepted, and no accepted one has fragments to
read.
-/
structure Served (s : Stack) : Prop where
  accepted : ∀ a st, s.stream? a = some st → st.dport = htons 9999 → st.status = .established
    → st.fd ≠ -1
  read : ∀ a st, s.stream? a = some st → st.isOpen → st.fd ≠ -1 → st.rcvItems = []

/--
At a wait with nothing on the ready list there is nothing left to do.
-/
def ReadinessKept (sys : ServerSys) : Prop :=
  sys.srv.pc = .wait → (∀ ep, sys.stack.table.ep = some ep → ep.rdlist = []) → Served sys.stack

/--
An event for the descriptor would make its item ready.
-/
def armed (s : Stack) (fd : Int) : Bool :=
  s.table.ep.any (fun ep => ep.armed fd)

/--
The fragments an established stream is to store for the segment.
-/
def arriving (env : Env) (m : Mbuf) : List NgTcpFragment :=
  (if hasPsh m then (recvFragment env m (tcplen m.ip)).toList else [])
    ++ if hasFin m then (recvFragment (env.after 3) m (hdrlen m.tcp).toNat).toList else []

/--
The descriptor the server has read the end of and is about to close.
-/
def ServerPc.closing : ServerPc → Option Int
  | .del connfd _ => some connfd
  | .close connfd _ => some connfd
  | _ => none

/--
The segment completes a handshake while the listening socket is registered and not ready, or brings
one fragment of no more than a buffer to a connection which is, or one that the server is closing.
-/
def timelySegment (sys : ServerSys) (env : Env) (m : Mbuf) : Bool :=
  match ngTcpStreamOf sys.stack m with
  | none => true
  | some (_, st) =>
    !cksumOk env m ||
      match st.status with
      | .synRcvd =>
        !hasFlag m.tcp.tcpFlags rteTcpAckFlag
          || armed sys.stack sys.srv.listenfd
            && (ngTcpStreamSearch sys.stack 0 0 0 st.dport).all
              (fun found => found.2.fd == sys.srv.listenfd)
      | .established =>
        (arriving env m).isEmpty
          || st.fd != -1
            && (sys.srv.pc.closing == some st.fd
              || armed sys.stack st.fd && (arriving env m).length == 1
                && (arriving env m).all (fun f => f.length.toNat ≤ bufferSize))
      | _ => true

/--
What `naccept` takes is open, and there is a descriptor for it.
-/
def acceptsOpen (s : Stack) (fd : Int) : Bool :=
  match getHostinfoFromfd s fd with
  | some (.stream _ listener) =>
    (getAcceptTcb s listener.dport).all (fun found => found.2.isOpen)
      && (getFdFrombitmap s.fdTable).1 != -1
  | _ => true

/--
The open stream with the descriptor, if there is one, is what the descriptor denotes.
-/
def denotesOpen (s : Stack) (fd : Int) : Bool :=
  s.table.tcbSet.cells.all (fun c => !(c.2.isOpen && c.2.fd == fd) || denotes s fd c.1)

/--
What an `nclose` leaves open has nothing to read.
-/
def closesUnread (env : Env) (s : Stack) (fd : Int) : Bool :=
  s.table.tcbSet.cells.all (fun c => !(c.2.isOpen && c.2.fd == fd) || c.2.rcvItems.isEmpty
    || denotes s fd c.1 && env.rteMalloc 0)

def timelyCall (sys : ServerSys) (env : Env) : Bool :=
  match sys.srv.pc with
  | .event ev _ =>
    if sys.srv.listenfd = ev.fd then
      acceptsOpen sys.stack sys.srv.listenfd
    else
      denotesOpen sys.stack ev.fd
  | .close connfd _ => closesUnread env sys.stack connfd
  | _ => true

/--
The step meets none of the ways in which the event of a connection or of a fragment gets lost.
-/
def timely (sys : ServerSys) : ServerSys.Turn → Bool
  | .server env => timelyCall sys env
  | .packet (.ngTcpProcess env m) => timelySegment sys env m
  | .packet _ => true

/--
The descriptors of the events the server has been handed and has not acted on yet.
-/
def ServerPc.batch : ServerPc → List Int
  | .event ev rest => ev.fd :: rest.map EpollEvent.fd
  | .add _ rest => rest.map EpollEvent.fd
  | .send _ _ rest => rest.map EpollEvent.fd
  | .del _ rest => rest.map EpollEvent.fd
  | .close _ rest => rest.map EpollEvent.fd
  | _ => []

/--
The server has not created its event poll yet.
-/
def ServerPc.opening : ServerPc → Bool
  | .socket => true
  | .bind => true
  | .listen => true
  | .epollCreate => true
  | _ => false

/--
The events for the descriptor that the server has been handed or will be.
-/
def ServerSys.due (sys : ServerSys) (fd : Int) : Nat :=
  pollDue sys.stack.table.ep fd + sys.srv.pc.batch.count fd

structure ServerInv (sys : ServerSys) : Prop where
  noHosts : ∀ a, sys.stack.lhost.get? a = none
  protocol : ∀ a st, sys.stack.stream? a = some st → st.protocol = ipprotoTcp
  noPoll : sys.srv.pc.opening → sys.stack.table.ep = none
  bounded : ∀ a st, sys.stack.stream? a = some st → -1 ≤ st.fd
  unbound : sys.srv.pc = .socket → (∀ a st, sys.stack.stream? a = some st → st.fd = -1)
    ∧ ∀ e, ¬fdUsed sys.stack.fdTable e
  listening : sys.srv.pc ≠ .socket → sys.srv.pc ≠ .returned
    → ∃ l, Listening sys.stack sys.srv.listenfd l
  labelled : ∀ ep, sys.stack.table.ep = some ep → ep.Labelled
  closing : ∀ fd, sys.srv.pc.closing = some fd → fd ≠ sys.srv.listenfd
  balanced : Balanced sys.stack sys.srv.listenfd sys.srv.pc.closing sys.due

@[simp]
theorem batch_next (events : List EpollEvent)
    : (Server.next events).batch = events.map EpollEvent.fd := by
  cases events <;> rfl

@[simp]
theorem closing_next (events : List EpollEvent) : (Server.next events).closing = none := by
  cases events <;> rfl

@[simp]
theorem opening_next (events : List EpollEvent) : (Server.next events).opening = false := by
  cases events <;> rfl

theorem next_ne_socket (events : List EpollEvent) : Server.next events ≠ .socket := by
  cases events <;> simp [Server.next]

theorem calm_of_step {s s' : Stack} {act : Act} {out : Out}
    (hstep : machine.step s act = .ok (s', out)) (haccept : ∀ sockfd, act ≠ .naccept sockfd)
    (hrecv : ∀ sockfd buf len, act ≠ .nrecv sockfd buf len)
    (hprocess : ∀ env m, act ≠ .ngTcpProcess env m)
    : ∀ a st', s'.stream? a = some st' → Calm (s.stream? a) st' := by
  intro a st' hst'
  have hstream := streamStep_of_step hstep a
  rw [hst'] at hstream
  exact calm_of_streamStep hstream haccept hrecv hprocess

theorem appended_sublist (env : Env) (length : Nat) (m : Mbuf) (n : Int)
    : (appended env length m n).Sublist (recvFragment env m n).toList := by
  unfold appended
  split
  . exact List.nil_sublist _
  . next f hf =>
    rw [hf]
    unfold enqueued
    split
    . exact List.Sublist.refl _
    . exact List.nil_sublist _

theorem appended_sublist_arriving (env : Env) (st : NgTcpStream) (m : Mbuf)
    : (pshAppended env st m ++ finAppended env st m).Sublist (arriving env m) := by
  unfold arriving pshAppended finAppended
  apply List.Sublist.append
  . split
    . exact appended_sublist _ _ _ _
    . exact List.Sublist.refl _
  . split
    . exact appended_sublist _ _ _ _
    . exact List.Sublist.refl _

theorem timelySegment_handshake {sys : ServerSys} {env : Env} {m : Mbuf} {a : Addr}
    {st : NgTcpStream} (h : timelySegment sys env m = true) (hcksum : cksumOk env m = true)
    (hfind : ngTcpStreamOf sys.stack m = some (a, st)) (hstatus : st.status = .synRcvd)
    (hack : hasFlag m.tcp.tcpFlags rteTcpAckFlag = true)
    : armed sys.stack sys.srv.listenfd = true
      ∧ ∀ b listener, ngTcpStreamSearch sys.stack 0 0 0 st.dport = some (b, listener)
        → listener.fd = sys.srv.listenfd := by
  simp only [timelySegment, hfind, hcksum, hstatus, hack, Bool.not_true, Bool.false_or,
    Bool.and_eq_true] at h
  refine ⟨h.1, ?_⟩
  intro b listener hlistener
  have := h.2
  rw [hlistener] at this
  simpa using this

theorem timelySegment_established {sys : ServerSys} {env : Env} {m : Mbuf} {a : Addr}
    {st : NgTcpStream} (h : timelySegment sys env m = true) (hcksum : cksumOk env m = true)
    (hfind : ngTcpStreamOf sys.stack m = some (a, st)) (hstatus : st.status = .established)
    : arriving env m = []
      ∨ st.fd ≠ -1 ∧ (sys.srv.pc.closing = some st.fd
        ∨ armed sys.stack st.fd = true ∧ (arriving env m).length = 1
          ∧ ∀ f ∈ arriving env m, f.length.toNat ≤ bufferSize) := by
  simpa only [timelySegment, hfind, hcksum, hstatus, Bool.not_true, Bool.false_or, Bool.or_eq_true,
    Bool.and_eq_true, List.isEmpty_iff, bne_iff_ne, ne_eq, beq_iff_eq, List.all_eq_true,
    decide_eq_true_eq, and_assoc] using h

theorem hasFlags_of_arriving {env : Env} {m : Mbuf} (h : arriving env m ≠ [])
    : (hasFlag m.tcp.tcpFlags rteTcpPshFlag || hasFlag m.tcp.tcpFlags rteTcpFinFlag) = true := by
  rw [← hasPsh, ← hasFin, ← Bool.not_eq_false]
  intro hnone
  rw [Bool.or_eq_false_iff] at hnone
  simp [arriving, hnone.1, hnone.2] at h

/-- A segment that comes in time keeps the balance. -/
theorem balanced_of_segmentProcessed {sys : ServerSys} {env : Env} {m : Mbuf} {t : Stack}
    (hI : ServerInv sys) (hguard : timelySegment sys env m = true)
    (h : SegmentProcessed env sys.stack m t)
    : Balanced t sys.srv.listenfd sys.srv.pc.closing { sys with stack := t }.due := by
  have hadd {syn : NgTcpStream} (hcalm : Calm none syn) (a : Addr) (st' : NgTcpStream)
      (hst' : (sys.stack.table.tcbSet.add syn).get? a = some st')
      : Calm (sys.stack.stream? a) st' := by
    rw [ObjList.get?_add] at hst'
    split at hst'
    . next heq =>
      cases hst'
      rw [heq, Stack.stream?, ObjList.get?_next]
      exact hcalm
    . exact .refl hst'
  cases h with
  | ignored _ => exact hI.balanced
  | halfOpen _ _ _ _ _ hcreate =>
    refine hI.balanced.of_due_le (hadd ?_) (fun _ => Nat.le_refl _)
    exact .idle (by simp [NgTcpStream.isOpen, hcreate.status]) (by simp [hcreate.status])
  | synAck _ _ _ _ _ hcreate _ =>
    refine hI.balanced.of_due_le (hadd ?_) (fun _ => Nat.le_refl _)
    exact .idle rfl (fun _ => ⟨hcreate.fd, hcreate.rcvItems⟩)
  | lastAck _ _ _ _ =>
    refine hI.balanced.of_due_le ?_ (fun _ => Nat.le_refl _)
    intro b st' hst'
    exact .refl (ObjList.get?_of_get?_remove hst').2
  -- The handshake signals the listening socket, whose item is registered and not ready by the condition.
  | @handshake a b st listener e ep' hcksum hfind hstatus hack hlistener hep hsig =>
    rcases timelySegment_handshake hguard hcksum hfind hstatus hack with ⟨harmed, hfd⟩
    have hst := stream?_of_ngTcpStreamOf hfind
    have hlistenfd : listener.fd = sys.srv.listenfd := by
      rw [ngTcpStreamSearch_modifyStream hst ⟨rfl, rfl, rfl, rfl⟩ (by simp [hstatus]),
        Option.map_eq_some_iff] at hlistener
      rcases hlistener with ⟨⟨c, listener'⟩, hsearch, heq⟩
      split at heq
      . cases heq
        exact hfd c listener' hsearch
      . cases heq
        exact hfd b listener hsearch
    rw [hlistenfd] at hsig
    rw [armed, hep, Option.any_some] at harmed
    have hdue (fd : Int) : sys.due fd
        = e.due fd + sys.srv.pc.batch.count fd := by
      rw [ServerSys.due, hep, pollDue_some]
    refine hI.balanced.handshake hst hstatus ?_ ?_ ?_ (stream?_afterSegment _ hst) ?_ ?_
    . rfl
    . rfl
    . rfl
    . intro fd
      rw [hdue]
      exact Nat.add_le_add_right (hsig.due_le fd) _
    . rw [hdue, Nat.add_right_comm]
      exact Nat.add_le_add_right (hsig.due_succ_le (hI.labelled e hep) harmed) _
  | @segment a st st' ep' hcksum hfind hstatus h =>
    have hst := stream?_of_ngTcpStreamOf hfind
    have hsub := appended_sublist_arriving env st m
    refine hI.balanced.segment hst (by simp [NgTcpStream.isOpen, hstatus]) h.fd_eq ?_ h.rcvItems
      (stream?_afterSegment _ hst) (fun fd => Nat.add_le_add_right (h.due_le fd) _) ?_
    . rcases h.status with heq | heq
      . simp [heq, hstatus]
      . simp [heq]
    . rcases timelySegment_established hguard hcksum hfind hstatus
        with hnil | ⟨hneg, hclosing | ⟨harmed, hone, hshort⟩⟩
      . rw [hnil, List.sublist_nil] at hsub
        exact .inl hsub
      . exact .inr ⟨hneg, .inl hclosing⟩
      . refine .inr ⟨hneg, .inr ⟨?_, fun f hf => hshort f (hsub.subset hf)⟩⟩
        -- One fragment arrives, so that the callback for it adds an event.
        have hne : arriving env m ≠ [] := by
          intro hnil
          simp [hnil] at hone
        have hadded := h.due_succ_le (hasFlags_of_arriving hne) hI.labelled harmed
        have hlen := hsub.length_le
        have hsum : sys.due st.fd = pollDue sys.stack.table.ep st.fd + sys.srv.pc.batch.count st.fd := rfl
        have hsum' : ServerSys.due { sys with stack := sys.stack.afterSegment a st' ep' } st.fd
            = pollDue ep' st.fd + sys.srv.pc.batch.count st.fd := rfl
        omega

/-- What the two sides of the system keep in the same way, whichever of them makes the step. -/
theorem ServerInv.of_step {sys : ServerSys} {srv' : Server} {s' : Stack} {act : Act} {out : Out}
    (hI : ServerInv sys) (hstep : machine.step sys.stack act = .ok (s', out))
    (hsocket : ∀ env, act ≠ .nsocket env sockDgram)
    (hclose : ∀ env, act ≠ .nclose env sys.srv.listenfd)
    (hlistenfd : sys.srv.pc ≠ .socket → srv'.listenfd = sys.srv.listenfd)
    (hpc : sys.srv.pc = .returned → srv'.pc = .returned)
    (hnoPoll : srv'.pc.opening → s'.table.ep = none)
    (hunbound : srv'.pc = .socket → (∀ a st, s'.stream? a = some st → st.fd = -1)
      ∧ ∀ e, ¬fdUsed s'.fdTable e)
    (hlistening : sys.srv.pc = .socket → srv'.pc ≠ .socket → srv'.pc ≠ .returned
      → ∃ l, Listening s' srv'.listenfd l)
    (hlabelled : ∀ ep, s'.table.ep = some ep → ep.Labelled)
    (hclosing : ∀ fd, srv'.pc.closing = some fd → fd ≠ srv'.listenfd)
    (hbalanced : Balanced s' srv'.listenfd srv'.pc.closing { srv := srv', stack := s' : ServerSys }.due)
    : ServerInv { srv := srv', stack := s' } where
  noHosts := noHosts_of_stepped (stepped_of_step hstep) hsocket hI.noHosts
  protocol := by
    intro a st hst
    exact (streamStep_of_step hstep a).protocol (hI.protocol a) st hst
  noPoll := hnoPoll
  bounded := fd_ge_of_step hstep hI.bounded
  unbound := hunbound
  listening := by
    intro hsock hret
    by_cases hpc' : sys.srv.pc = .socket
    . exact hlistening hpc' hsock hret
    . dsimp only
      rw [hlistenfd hpc']
      rcases hI.listening hpc' (fun h => hret (hpc h)) with ⟨l, hl⟩
      exact ⟨l, hl.of_step hstep hI.noHosts hI.bounded hclose⟩
  labelled := hlabelled
  closing := hclosing
  balanced := hbalanced

/-- The packet side takes no descriptor and gives none back. -/
theorem fdTable_of_packet {s s' : Stack} {p : PacketAct} {out : Out}
    (hstep : machine.step s p.act = .ok (s', out)) : s'.fdTable = s.fdTable := by
  have hsame (h : SameHosts s s') : s'.fdTable = s.fdTable := by
    rcases h.rest with ⟨_, _, rfl⟩
    rfl
  have hstepped := stepped_of_step hstep
  cases p with
  | ngArpEntryInsert malloc ip mac =>
    cases hstepped with
    | ngArpEntryInsert => rfl
  | udpProcess env m =>
    cases hstepped with
    | udpProcess h => exact hsame h
  | ngTcpProcess env m =>
    cases hstepped with
    | ngTcpProcess h => cases h <;> rfl
  | udpOut env =>
    cases hstepped with
    | udpOut h => exact hsame h
  | ngTcpOut env =>
    cases hstepped with
    | ngTcpOut h => rw [h.rest]

theorem serverInv_packet {sys : ServerSys} {p : PacketAct} {s' : Stack} {out : Out}
    (hI : ServerInv sys) (hguard : timely sys (.packet p) = true)
    (hstep : machine.step sys.stack p.act = .ok (s', out)) : ServerInv { sys with stack := s' } := by
  have hmoved : EpMoved sys.stack.table.ep s'.table.ep := by
    apply epMoved_of_stepped (stepped_of_step hstep) <;> cases p <;> simp [PacketAct.act]
  apply hI.of_step hstep
  . cases p <;> simp [PacketAct.act]
  . cases p <;> simp [PacketAct.act]
  . exact fun _ => rfl
  . exact id
  . exact fun hopening => hmoved.eq_none (hI.noPoll hopening)
  . intro hpc
    constructor
    . intro a st hst
      have hstream := streamStep_of_step hstep a
      rw [hst] at hstream
      rcases hstream.fd_cases with hneg | ⟨_, ⟨_, _, hact⟩ | ⟨_, hact⟩⟩ | ⟨st1, hst1, heq⟩
      . exact hneg
      . cases p <;> contradiction
      . cases p <;> contradiction
      . exact heq.trans ((hI.unbound hpc).1 a st1 hst1)
    . rw [fdTable_of_packet hstep]
      exact (hI.unbound hpc).2
  . exact fun hpc hpc' => absurd hpc hpc'
  . exact hmoved.labelled hI.labelled
  . exact hI.closing
  -- Of the packet side only the segments bring work or events.
  . have hquiet (hep : s'.table.ep = sys.stack.table.ep)
        (hprocess : ∀ env m, p.act ≠ .ngTcpProcess env m)
        : Balanced s' sys.srv.listenfd sys.srv.pc.closing { sys with stack := s' }.due := by
      apply hI.balanced.of_due_le
      . apply calm_of_step hstep _ _ hprocess <;> cases p <;> simp [PacketAct.act]
      . intro fd
        rw [ServerSys.due, ServerSys.due, hep]
    have hstepped := stepped_of_step hstep
    cases p with
    | ngTcpProcess env m =>
      cases hstepped with
      | ngTcpProcess h =>
        exact (balanced_of_segmentProcessed hI hguard h).of_due_le (fun _ _ hst => .refl hst)
          (fun _ => Nat.le_refl _)
    | ngArpEntryInsert malloc ip mac =>
      cases hstepped with
      | ngArpEntryInsert => exact hquiet rfl (by simp [PacketAct.act])
    | udpProcess env m =>
      cases hstepped with
      | udpProcess h => exact hquiet (by rw [h.table_eq]) (by simp [PacketAct.act])
    | udpOut env =>
      cases hstepped with
      | udpOut h => exact hquiet (by rw [h.table_eq]) (by simp [PacketAct.act])
    | ngTcpOut env =>
      cases hstepped with
      | ngTcpOut h => exact hquiet (by rw [h.rest]) (by simp [PacketAct.act])

section

variable {sys : ServerSys} {ev : EpollEvent} {rest : List EpollEvent} {s' : Stack}

theorem due_event (hpc : sys.srv.pc = .event ev rest) (fd : Int)
    : sys.due fd = pollDue sys.stack.table.ep fd + (rest.map EpollEvent.fd).count fd
        + if ev.fd = fd then 1 else 0 := by
  rw [ServerSys.due, hpc, ServerPc.batch, List.count_cons, Nat.add_assoc]
  simp only [beq_iff_eq]

theorem closing_event (hpc : sys.srv.pc = .event ev rest) : sys.srv.pc.closing = none := by
  rw [hpc]
  rfl

theorem Listening.fd_ne_of_isOpen {s : Stack} {fd : Int} {l b : Addr} {st : NgTcpStream}
    (h : Listening s fd l) (hst : s.stream? b = some st) (hopen : st.isOpen) : st.fd ≠ fd := by
  intro hfd
  have := h.only b st hst hfd
  subst this
  rcases h.stream with ⟨st', hst', _, hstatus⟩
  rw [hst] at hst'
  cases hst'
  rcases hstatus with hstatus | hstatus <;> simp [NgTcpStream.isOpen, hstatus] at hopen

theorem balanced_of_naccept {r : Int} (hI : ServerInv sys) (hpc : sys.srv.pc = .event ev rest)
    (hev : sys.srv.listenfd = ev.fd) (hguard : acceptsOpen sys.stack sys.srv.listenfd = true)
    (h : NacceptDone sys.stack sys.srv.listenfd r s')
    : Balanced s' sys.srv.listenfd none
        (fun fd => pollDue s'.table.ep fd + (rest.map EpollEvent.fd).count fd) := by
  rcases hI.listening (by simp [hpc]) (by simp [hpc]) with ⟨l, hl⟩
  have hbal := hI.balanced
  rw [closing_event hpc] at hbal
  cases h with
  | failed hproto =>
    rcases hl.getHostinfoFromfd_eq hI.noHosts with ⟨st, hinfo⟩
    have hst := (getHostinfoFromfd_stream hinfo).1
    exact absurd (hI.protocol l st hst) (hproto l st hinfo)
  | @accepted l' a listener apt hinfo hfind =>
    rcases getAcceptTcb_some hfind with ⟨hst, _, hneg⟩
    simp only [acceptsOpen, hinfo, hfind, Option.all_some, Bool.and_eq_true, bne_iff_ne, ne_eq]
      at hguard
    refine hbal.accept hst hguard.1 hneg ?_ ?_ ?_ (stream?_modifyStream_of_some hst)
      (fun b st => hl.fd_ne_of_isOpen) ?_ ?_
    . exact hguard.2
    . rfl
    . rfl
    . intro fd hne
      rw [due_event hpc, if_neg (hev ▸ hne.symm)]
      exact Nat.le_refl _
    . rw [due_event hpc, if_pos hev.symm]
      exact Nat.le_refl _

theorem denotes_of_denotesOpen {s : Stack} {fd : Int} (h : denotesOpen s fd = true) {b : Addr}
    {st : NgTcpStream} (hst : s.stream? b = some st) (hopen : st.isOpen) (hfd : st.fd = fd)
    : denotes s fd b = true := by
  rw [denotesOpen, List.all_eq_true] at h
  have := h (b, st) ((ObjList.get?_eq_some_iff _ _ _).mp hst)
  simpa [hopen, hfd] using this

theorem eq_of_denotes {s : Stack} {fd : Int} {a b : Addr} {st : NgTcpStream}
    (hinfo : getHostinfoFromfd s fd = some (.stream a st)) (h : denotes s fd b = true) : b = a := by
  rcases denotes_iff.mp h with ⟨_, hinfo', _⟩
  rw [hinfo] at hinfo'
  cases hinfo'
  rfl

theorem balanced_of_nrecv {r : Int} {buf buf' : Nat → UInt8} (hI : ServerInv sys)
    (hpc : sys.srv.pc = .event ev rest) (hev : sys.srv.listenfd ≠ ev.fd)
    (hguard : denotesOpen sys.stack ev.fd = true)
    (h : nrecv sys.stack ev.fd buf bufferSize = .ok (r, buf', s'))
    : Balanced s' sys.srv.listenfd (if 0 < r then none else some ev.fd)
        (fun fd => pollDue s'.table.ep fd + (rest.map EpollEvent.fd).count fd) := by
  have hbal := hI.balanced
  rw [closing_event hpc] at hbal
  rcases nrecv_cases h with ⟨rfl, hr⟩ | ⟨a, st, rcvbuf, f, frs, hinfo, hitems, hread, rfl⟩
  . rw [if_neg (by omega)]
    apply hbal.of_calm
    . exact fun _ _ hst => .refl hst
    . intro b st hst hopen hne
      refine .inr ⟨nofun, ?_⟩
      rw [due_event hpc, if_neg (fun heq => hne (by rw [heq]))]
      exact Nat.le_refl _
    . rw [due_event hpc, if_neg hev.symm]
      exact Nat.le_refl _
  . rcases getHostinfoFromfd_stream hinfo with ⟨hst, hfd⟩
    -- The event in hand pays for the fragment that was read.
    have hdone : Balanced (sys.stack.modifyStream a (fun st => { st with rcvbuf := some rcvbuf }))
        sys.srv.listenfd none
        (fun fd => pollDue sys.stack.table.ep fd + (rest.map EpollEvent.fd).count fd) := by
      refine hbal.read hst hitems ?_ ?_ ?_ (stream?_modifyStream_of_some hst) nofun (hfd ▸ hev.symm)
        ?_ ?_ ?_
      . rfl
      . rfl
      . intro hshort
        rcases hread with ⟨hlong, _⟩ | ⟨_, hrest, _⟩
        . omega
        . exact hrest
      . intro b st1 hst1 hopen1 heq
        exact eq_of_denotes hinfo (denotes_of_denotesOpen hguard hst1 hopen1 (heq.trans hfd))
      . intro fd hne
        rw [due_event hpc, if_neg (hfd ▸ hne.symm)]
        exact Nat.le_refl _
      . rw [due_event hpc, if_pos hfd.symm]
    split
    . exact hdone
    . exact hdone.close_soon ev.fd

theorem rcvItems_eq_nil_of_closesUnread {env : Env} {s : Stack} {fd : Int}
    (h : closesUnread env s fd = true) {b : Addr} {st : NgTcpStream} (hst : s.stream? b = some st)
    (hopen : st.isOpen) (hfd : st.fd = fd)
    : st.rcvItems = [] ∨ denotes s fd b = true ∧ env.rteMalloc 0 = true := by
  rw [closesUnread, List.all_eq_true] at h
  have := h (b, st) ((ObjList.get?_eq_some_iff _ _ _).mp hst)
  simpa [hopen, hfd] using this

theorem rcvItems_eq_nil_of_nclose {env : Env} {s s' : Stack} {fd : Int}
    (hhosts : ∀ a, s.lhost.get? a = none) (hguard : closesUnread env s fd = true)
    (h : NcloseDone env s fd s') {b : Addr} {st' : NgTcpStream} (hst' : s'.stream? b = some st')
    (hopen : st'.isOpen) (hfd : st'.fd = fd) : st'.rcvItems = [] := by
  cases h with
  | same h _ =>
    rcases rcvItems_eq_nil_of_closesUnread hguard hst' hopen hfd with hnil | ⟨hdenotes, hmalloc⟩
    . exact hnil
    . rcases denotes_iff.mp hdenotes with ⟨st, hinfo, hproto⟩
      rw [(h b st hinfo hproto).2] at hmalloc
      contradiction
  | host hinfo =>
    have := (getHostinfoFromfd_host hinfo).1
    rw [hhosts] at this
    contradiction
  | @fin a st sndbuf hinfo _ _ _ _ =>
    have hst := (getHostinfoFromfd_stream hinfo).1
    have hget := stream?_modifyStream_of_some
      (f := fun st => { st with sndbuf := some sndbuf, status := .lastAck }) hst b
    have hst' := hget.symm.trans hst'
    split at hst'
    . cases hst'
      contradiction
    . next hne =>
      rcases rcvItems_eq_nil_of_closesUnread hguard hst' hopen hfd with hnil | ⟨hdenotes, _⟩
      . exact hnil
      . exact absurd (eq_of_denotes hinfo hdenotes) hne
  | @listen a st hinfo _ =>
    rcases ObjList.get?_of_get?_remove hst' with ⟨hne, hst⟩
    rcases rcvItems_eq_nil_of_closesUnread hguard hst hopen hfd with hnil | ⟨hdenotes, _⟩
    . exact hnil
    . exact absurd (eq_of_denotes hinfo hdenotes) hne

end

section

variable {sys : ServerSys} {env : Env} {s' : Stack} {out : Out}

theorem serverInv_nsocket (hI : ServerInv sys) (hpc : sys.srv.pc = .socket)
    (hstep : machine.step sys.stack (.nsocket env sockStream) = .ok (s', out))
    : ServerInv { srv := sys.srv.advance out, stack := s' } := by
  have hstepped := stepped_of_step hstep
  have hmoved := epMoved_of_stepped hstepped (by simp) (by simp)
  have hnone : sys.stack.table.ep = none := hI.noPoll (by rw [hpc, ServerPc.opening])
  have hadvance : sys.srv.advance out = { sys.srv with
      listenfd := out.ret
      pc := if out.ret = -1 then .returned else .bind } := by
    rw [Server.advance, hpc]
  -- There is no event poll yet and no work, so the balance is between zeros.
  have hzero (fd : Int) : sys.due fd = 0 := by
    rw [ServerSys.due, hnone, hpc]
    rfl
  have hcases : (sys.srv.advance out).pc = .returned ∨ (sys.srv.advance out).pc = .bind := by
    rw [hadvance]
    dsimp only
    split
    . exact .inl rfl
    . exact .inr rfl
  apply hI.of_step hstep
  . intro env' heq
    rw [Act.nsocket.injEq] at heq
    exact absurd heq.2 (by decide)
  . simp
  . exact fun h => absurd hpc h
  . simp [hpc]
  . exact fun _ => hmoved.eq_none hnone
  . rcases hcases with h | h <;> simp [h]
  . intro _ _ hret
    have hne : out.ret ≠ -1 := by
      intro heq
      simp [hadvance, heq] at hret
    have hfd : (sys.srv.advance out).listenfd = out.ret := by
      rw [hadvance]
    rw [hfd]
    cases hstepped with
    | nsocket h => exact listening_of_nsocket h (hI.unbound hpc).1 (hI.unbound hpc).2 hne
  . exact hmoved.labelled hI.labelled
  . rcases hcases with h | h <;> simp [ServerPc.closing, h]
  . apply hI.balanced.of_calm
    . exact calm_of_step hstep (by simp) (by simp) (by simp)
    . intro a st' _ _ _
      refine .inr ⟨?_, ?_⟩
      . simp [ServerPc.closing, hpc]
      . rw [hzero]
        exact Nat.zero_le _
    . rw [hzero]
      exact Nat.zero_le _

/-- A call that brings no work to the streams keeps the invariant if it loses no event. -/
theorem ServerInv.of_quiet {act : Act} {srv' : Server} (hI : ServerInv sys)
    (hstep : machine.step sys.stack act = .ok (s', out))
    (hact : (∀ env type, act ≠ .nsocket env type) ∧ (∀ env fd, act ≠ .nclose env fd)
      ∧ (∀ fd, act ≠ .naccept fd) ∧ (∀ fd buf len, act ≠ .nrecv fd buf len)
      ∧ ∀ env m, act ≠ .ngTcpProcess env m)
    (hpc : sys.srv.pc ≠ .socket ∧ sys.srv.pc ≠ .returned) (hpc' : srv'.pc ≠ .socket)
    (hlistenfd : srv'.listenfd = sys.srv.listenfd) (hclosing : srv'.pc.closing = sys.srv.pc.closing)
    (hnoPoll : srv'.pc.opening → s'.table.ep = none)
    (hlabelled : ∀ ep, s'.table.ep = some ep → ep.Labelled)
    (hdue : ∀ fd, sys.srv.pc.closing ≠ some fd
      → sys.due fd ≤ { srv := srv', stack := s' : ServerSys }.due fd)
    : ServerInv { srv := srv', stack := s' } := by
  rcases hact with ⟨hsocket, hclose, haccept, hrecv, hprocess⟩
  apply hI.of_step hstep
  . exact fun env => hsocket env _
  . exact fun env => hclose env _
  . exact fun _ => hlistenfd
  . exact fun h => absurd h hpc.2
  . exact hnoPoll
  . exact fun h => absurd h hpc'
  . exact fun h => absurd h hpc.1
  . exact hlabelled
  . rw [hclosing, hlistenfd]
    exact hI.closing
  . rw [hclosing, hlistenfd]
    apply hI.balanced.of_calm
    . exact calm_of_step hstep haccept hrecv hprocess
    . intro a st' _ _ hne
      exact .inr ⟨hne, hdue _ hne⟩
    . apply hdue
      intro h
      exact hI.closing _ h rfl

theorem due_of_same_poll {srv' : Server} (hep : s'.table.ep = sys.stack.table.ep)
    (hbatch : srv'.pc.batch = sys.srv.pc.batch) (fd : Int)
    : sys.due fd ≤ { srv := srv', stack := s' : ServerSys }.due fd := by
  rw [ServerSys.due, ServerSys.due, hep, hbatch]

theorem due_of_opening {srv' : Server} (hI : ServerInv sys) (hopening : sys.srv.pc.opening = true)
    (fd : Int) : sys.due fd ≤ { srv := srv', stack := s' : ServerSys }.due fd := by
  have hbatch : sys.srv.pc.batch = [] := by
    cases hpc : sys.srv.pc <;> simp [hpc, ServerPc.opening] at hopening <;> rfl
  rw [ServerSys.due, hI.noPoll hopening, hbatch]
  exact Nat.zero_le _

theorem serverInv_nepollCtl {srv' : Server} {epfd op sockid : Int} {event : Option EpollEvent}
    (hI : ServerInv sys)
    (hstep : machine.step sys.stack (.nepollCtl env epfd op sockid event) = .ok (s', out))
    (hpc : sys.srv.pc ≠ .socket ∧ sys.srv.pc ≠ .returned) (hpc' : srv'.pc ≠ .socket)
    (hlistenfd : srv'.listenfd = sys.srv.listenfd) (hclosing : srv'.pc.closing = sys.srv.pc.closing)
    (hopening : srv'.pc.opening = false) (hbatch : srv'.pc.batch = sys.srv.pc.batch)
    (hevent : ∀ ev, event = some ev → ev.fd = sockid)
    (hdel : op = epollCtlDel → sys.srv.pc.closing = some sockid)
    : ServerInv { srv := srv', stack := s' } := by
  cases stepped_of_step hstep with
  | nepollCtl h =>
    apply hI.of_quiet hstep
    . simp
    . exact hpc
    . exact hpc'
    . exact hlistenfd
    . exact hclosing
    . simp [hopening]
    . exact h.labelled hevent hI.labelled
    . intro fd hne
      have hfd : op = epollCtlDel → fd ≠ sockid := by
        rintro hop rfl
        exact hne (hdel hop)
      rw [ServerSys.due, ServerSys.due, hbatch]
      exact Nat.add_le_add_right (h.due_le hI.labelled hfd) _

theorem serverInv_nepollWait (hI : ServerInv sys) (hpc : sys.srv.pc = .wait)
    (hstep : machine.step sys.stack (.nepollWait env sys.srv.epfd 128 5) = .ok (s', out))
    : ServerInv { srv := sys.srv.advance out, stack := s' } := by
  have hstepped := stepped_of_step hstep
  have hmoved := epMoved_of_stepped hstepped (by simp) (by simp)
  have hquiet {srv' : Server} (hpc' : srv'.pc ≠ .socket) (hlistenfd : srv'.listenfd = sys.srv.listenfd)
      (hclosing : srv'.pc.closing = none) (hopening : srv'.pc.opening = false)
      (hdue : ∀ fd, sys.due fd ≤ { srv := srv', stack := s' : ServerSys }.due fd)
      : ServerInv { srv := srv', stack := s' } := by
    apply hI.of_quiet hstep
    . simp
    . simp [hpc]
    . exact hpc'
    . exact hlistenfd
    . rw [hpc]
      exact hclosing
    . simp [hopening]
    . exact hmoved.labelled hI.labelled
    . exact fun fd _ => hdue fd
  simp only [Server.advance, hpc]
  cases hstepped with
  | nepollWait h =>
    split
    . next hret =>
      rcases h with ⟨rfl, _⟩ | ⟨_, _, _, _, _, hlen, _⟩
      . exact hI
      . dsimp only at hret
        omega
    . apply hquiet
      . exact next_ne_socket _
      . rfl
      . exact closing_next _
      . exact opening_next _
      -- What a wait hands out moves from the ready list into the batch.
      . intro fd
        rw [ServerSys.due, ServerSys.due, hpc]
        dsimp only
        rw [batch_next]
        rcases h with ⟨rfl, rfl⟩ | ⟨ep, ep', hinfo, hpop, _, rfl⟩
        . exact Nat.le_refl _
        . rw [(getHostinfoFromfd_ep hinfo).1, ep_setEp, pollDue_some, pollDue_some, hpop.due_eq fd]
          simp [ServerPc.batch, Nat.add_comm]

theorem serverInv_naccept {ev : EpollEvent} {rest : List EpollEvent} (hI : ServerInv sys)
    (hpc : sys.srv.pc = .event ev rest) (hev : sys.srv.listenfd = ev.fd)
    (hguard : acceptsOpen sys.stack sys.srv.listenfd = true)
    (hstep : machine.step sys.stack (.naccept sys.srv.listenfd) = .ok (s', out))
    : ServerInv { srv := sys.srv.advance out, stack := s' } := by
  have hstepped := stepped_of_step hstep
  have hmoved := epMoved_of_stepped hstepped (by simp) (by simp)
  simp only [Server.advance, hpc, if_pos hev]
  apply hI.of_step hstep
  . simp
  . simp
  . exact fun _ => rfl
  . simp [hpc]
  . simp [ServerPc.opening]
  . simp
  . simp [hpc]
  . exact hmoved.labelled hI.labelled
  . simp [ServerPc.closing]
  . cases hstepped with
    | naccept h => exact balanced_of_naccept hI hpc hev hguard h

theorem serverInv_nrecv {ev : EpollEvent} {rest : List EpollEvent} (hI : ServerInv sys)
    (hpc : sys.srv.pc = .event ev rest) (hev : sys.srv.listenfd ≠ ev.fd)
    (hguard : denotesOpen sys.stack ev.fd = true)
    (hstep : machine.step sys.stack (.nrecv ev.fd sys.srv.buff bufferSize) = .ok (s', out))
    : ServerInv { srv := sys.srv.advance out, stack := s' } := by
  have hstepped := stepped_of_step hstep
  have hmoved := epMoved_of_stepped hstepped (by simp) (by simp)
  have hadvance : (sys.srv.advance out).listenfd = sys.srv.listenfd
      ∧ (sys.srv.advance out).pc = if 0 < out.ret then .send ev.fd out.ret rest else .del ev.fd rest := by
    simp only [Server.advance, hpc, if_neg hev]
    split <;> exact ⟨rfl, rfl⟩
  -- With nothing left to read the server goes on to close the connection.
  have hclosing : (sys.srv.advance out).pc.closing = if 0 < out.ret then none else some ev.fd := by
    rw [hadvance.2]
    split <;> rfl
  have hbatch : (sys.srv.advance out).pc.batch = rest.map EpollEvent.fd := by
    rw [hadvance.2]
    split <;> rfl
  apply hI.of_step hstep
  . simp
  . simp
  . exact fun _ => hadvance.1
  . simp [hpc]
  . rw [hadvance.2]
    split <;> exact nofun
  . rw [hadvance.2]
    split <;> exact nofun
  . simp [hpc]
  . exact hmoved.labelled hI.labelled
  . rw [hadvance.1, hclosing]
    split
    . exact nofun
    . rintro fd ⟨rfl⟩
      exact hev.symm
  . rw [hadvance.1, hclosing]
    cases hstepped with
    | nrecv h =>
      unfold ServerSys.due
      dsimp only
      rw [hbatch]
      exact balanced_of_nrecv hI hpc hev hguard h

theorem serverInv_nclose {connfd : Int} {rest : List EpollEvent} (hI : ServerInv sys)
    (hpc : sys.srv.pc = .close connfd rest) (hguard : closesUnread env sys.stack connfd = true)
    (hstep : machine.step sys.stack (.nclose env connfd) = .ok (s', out))
    : ServerInv { srv := sys.srv.advance out, stack := s' } := by
  have hstepped := stepped_of_step hstep
  have hmoved := epMoved_of_stepped hstepped (by simp) (by simp)
  have hclosing : sys.srv.pc.closing = some connfd := by
    rw [hpc]
    rfl
  have hne := hI.closing connfd hclosing
  simp only [Server.advance, hpc]
  cases hstepped with
  | nclose h =>
    have hep : s'.table.ep = sys.stack.table.ep := by
      cases h <;> rfl
    have hdue (fd : Int) : sys.due fd
        = pollDue s'.table.ep fd + (rest.map EpollEvent.fd).count fd := by
      rw [ServerSys.due, hpc, hep]
      rfl
    apply hI.of_step hstep
    . simp
    . simpa using hne
    . exact fun _ => rfl
    . simp [hpc]
    . simp
    . exact fun h => absurd h (next_ne_socket rest)
    . simp [hpc]
    . exact hmoved.labelled hI.labelled
    . simp
    . apply hI.balanced.of_calm
      . exact calm_of_step hstep (by simp) (by simp) (by simp)
      -- An open stream that still has the descriptor has nothing to read, so no event is due for it.
      . intro b st' hst' hopen _
        by_cases hfd : st'.fd = connfd
        . exact .inl (rcvItems_eq_nil_of_nclose hI.noHosts hguard h hst' hopen hfd)
        . refine .inr ⟨?_, ?_⟩
          . rw [hclosing]
            simpa using Ne.symm hfd
          . rw [hdue, ServerSys.due]
            simp
      . rw [hdue, ServerSys.due]
        simp

theorem serverInv_call {act : Act} (hI : ServerInv sys) (hguard : timelyCall sys env = true)
    (hcall : sys.srv.call env = some act) (hstep : machine.step sys.stack act = .ok (s', out))
    : ServerInv { srv := sys.srv.advance out, stack := s' } := by
  -- Each place in the server has its call. The condition is about `naccept`, `nrecv` and `nclose`.
  cases hpc : sys.srv.pc with
  | socket =>
    simp only [Server.call, hpc, Option.some.injEq] at hcall
    subst hcall
    exact serverInv_nsocket hI hpc hstep
  | bind | listen =>
    simp only [Server.call, hpc, Option.some.injEq] at hcall
    subst hcall
    simp only [Server.advance, hpc]
    have hmoved := epMoved_of_stepped (stepped_of_step hstep) (by simp) (by simp)
    have hopening : sys.srv.pc.opening = true := by simp [hpc, ServerPc.opening]
    apply hI.of_quiet hstep
    . simp
    . simp [hpc]
    . simp
    . rfl
    . simp [hpc, ServerPc.closing]
    . exact fun _ => hmoved.eq_none (hI.noPoll hopening)
    . exact hmoved.labelled hI.labelled
    . exact fun fd _ => due_of_opening hI hopening fd
  | epollCreate =>
    simp only [Server.call, hpc, Option.some.injEq] at hcall
    subst hcall
    simp only [Server.advance, hpc]
    apply hI.of_quiet hstep
    . simp
    . simp [hpc]
    . simp
    . rfl
    . simp [hpc, ServerPc.closing]
    . simp [ServerPc.opening]
    . cases stepped_of_step hstep with
      | nepollCreate h => exact h.labelled hI.labelled
    . exact fun fd _ => due_of_opening hI (by simp [hpc, ServerPc.opening]) fd
  | addListen =>
    simp only [Server.call, hpc, Option.some.injEq] at hcall
    subst hcall
    simp only [Server.advance, hpc]
    apply serverInv_nepollCtl hI hstep
    . simp [hpc]
    . simp
    . rfl
    . simp [hpc, ServerPc.closing]
    . simp [ServerPc.opening]
    . simp [hpc, ServerPc.batch]
    . simp
    . exact fun h => absurd h (by decide)
  | add connfd rest =>
    simp only [Server.call, hpc, Option.some.injEq] at hcall
    subst hcall
    simp only [Server.advance, hpc]
    apply serverInv_nepollCtl hI hstep
    . simp [hpc]
    . exact next_ne_socket rest
    . rfl
    . rw [hpc]
      exact closing_next rest
    . simp
    . rw [hpc]
      exact batch_next rest
    . simp
    . exact fun h => absurd h (by decide)
  | del connfd rest =>
    simp only [Server.call, hpc, Option.some.injEq] at hcall
    subst hcall
    simp only [Server.advance, hpc]
    apply serverInv_nepollCtl hI hstep
    . simp [hpc]
    . simp
    . rfl
    . simp [hpc, ServerPc.closing]
    . simp [ServerPc.opening]
    . simp [hpc, ServerPc.batch]
    . simp
    . simp [hpc, ServerPc.closing]
  | send connfd n rest =>
    simp only [Server.call, hpc, Option.some.injEq] at hcall
    subst hcall
    simp only [Server.advance, hpc]
    have hstepped := stepped_of_step hstep
    have hmoved := epMoved_of_stepped hstepped (by simp) (by simp)
    apply hI.of_quiet hstep
    . simp
    . simp [hpc]
    . exact next_ne_socket rest
    . rfl
    . rw [hpc]
      exact closing_next rest
    . simp
    . exact hmoved.labelled hI.labelled
    . intro fd _
      apply due_of_same_poll
      . cases hstepped with
        | nsend h => cases h <;> rfl
      . rw [hpc]
        exact batch_next rest
  | wait =>
    simp only [Server.call, hpc, Option.some.injEq] at hcall
    subst hcall
    exact serverInv_nepollWait hI hpc hstep
  | event ev rest =>
    simp only [timelyCall, hpc] at hguard
    simp only [Server.call, hpc] at hcall
    split at hcall
    . next hev =>
      rw [if_pos hev] at hguard
      rw [Option.some.injEq] at hcall
      subst hcall
      exact serverInv_naccept hI hpc hev hguard hstep
    . next hev =>
      rw [if_neg hev] at hguard
      rw [Option.some.injEq] at hcall
      subst hcall
      exact serverInv_nrecv hI hpc hev hguard hstep
  | close connfd rest =>
    simp only [timelyCall, hpc] at hguard
    simp only [Server.call, hpc, Option.some.injEq] at hcall
    subst hcall
    exact serverInv_nclose hI hpc hguard hstep
  | returned => simp [Server.call, hpc] at hcall

theorem serverInv_step {t : ServerSys.Turn} {sys' : ServerSys} (hI : ServerInv sys)
    (hguard : timely sys t = true) (hstep : serverMachine.step sys t = .ok (sys', out))
    : ServerInv sys' := by
  cases t with
  | server env =>
    simp only [serverMachine, ServerSys.step] at hstep
    split at hstep
    . cases hstep
      exact hI
    . next act hcall =>
      rcases map_eq_ok hstep with ⟨⟨s', out'⟩, hact, heq⟩
      cases heq
      exact serverInv_call hI hguard hcall hact
  | packet p =>
    rcases map_eq_ok hstep with ⟨⟨s', out'⟩, hact, heq⟩
    cases heq
    exact serverInv_packet hI hguard hact

end

theorem serverInv_init : ServerInv .init where
  noHosts := fun _ => rfl
  protocol := nofun
  noPoll := fun _ => rfl
  bounded := by simp [ServerSys.init, Stack.init, Stack.stream?]
  unbound := fun _ => ⟨by simp [ServerSys.init, Stack.init, Stack.stream?], not_fdUsed_init⟩
  listening := fun h => absurd rfl h
  labelled := nofun
  closing := nofun
  balanced := ⟨nofun, Nat.le_refl _⟩

theorem ServerInv.readinessKept {sys : ServerSys} (hI : ServerInv sys) : ReadinessKept sys := by
  intro hpc hempty
  have hzero (fd : Int) : sys.due fd = 0 := by
    rw [ServerSys.due, hpc]
    cases hep : sys.stack.table.ep with
    | none => rfl
    | some ep =>
      rw [pollDue_some, Eventpoll.due, hempty ep hep]
      rfl
  have hbal := hI.balanced
  constructor
  . intro a st hst _ hstatus hneg
    have hmem : a ∈ unaccepted sys.stack :=
      mem_unaccepted_iff.mpr ⟨st, hst, by simp [NgTcpStream.isOpen, hstatus], hneg⟩
    have hle := hbal.accepts
    rw [hzero, Nat.le_zero, List.length_eq_zero_iff] at hle
    rw [hle] at hmem
    contradiction
  . intro a st hst hopen hneg
    have hle := ((hbal.streams a st hst).accepted hopen hneg (by simp [hpc, ServerPc.closing])).1
    rw [hzero, Nat.le_zero, List.length_eq_zero_iff] at hle
    exact hle

/--
In a run in which every step is timely, readiness is not lost.
-/
theorem readinessKept_of_timely {tr : List ServerStep} {sys : ServerSys}
    (h : ServerRun .init tr sys) (htimely : ∀ e ∈ tr, timely e.pre e.act = true)
    : ∀ tr' sys', tr' <+: tr → ServerRun .init tr' sys' → ReadinessKept sys' := by
  rintro tr' sys' ⟨tr2, rfl⟩ h'
  apply ServerInv.readinessKept
  apply Machine.Run.invariant_of_guard (C := fun sys t => timely sys t = true) h' serverInv_init
  . intro e he
    exact htimely e (List.mem_append_left tr2 he)
  . intro _ _ _ _ hI hguard hstep
    exact serverInv_step hI hguard hstep

/--
The next `n` calls of the server.
-/
def serverTurns (n : Nat) : List ServerSys.Turn :=
  List.replicate n (.server .granting)

/--
A segment of the client at port `sport` once it is connected.
-/
def segmentTurn (sport : UInt16) (tcpFlags : UInt8) (payload : List UInt8) : ServerSys.Turn :=
  .packet (.ngTcpProcess .granting (.segment sport tcpFlags 101 1001 payload))

/--
The segments with which a client connects.
-/
def connectTurns (sport : UInt16) : List ServerSys.Turn := [
  .packet (.ngTcpProcess .granting (.segment sport rteTcpSynFlag 100 0 [])),
  segmentTurn sport rteTcpAckFlag []
]

/-- The second client connects while the first is being registered; the first sends and leaves. -/
theorem readinessKept_two_clients
    : ∃ tr sys, ServerRun .init tr sys
        ∧ tr.map Edge.act = serverTurns 6 ++ connectTurns 5 ++ serverTurns 2 ++ connectTurns 6
          ++ serverTurns 1 ++ [segmentTurn 5 (rteTcpPshFlag ||| rteTcpAckFlag) [1, 2]]
          ++ serverTurns 5 ++ [segmentTurn 5 (rteTcpFinFlag ||| rteTcpAckFlag) []] ++ serverTurns 5
        ∧ ∀ tr' sys', tr' <+: tr → ServerRun .init tr' sys' → ReadinessKept sys' := by
  have hcheck : serverMachine.check .init (serverTurns 6 ++ connectTurns 5 ++ serverTurns 2
      ++ connectTurns 6 ++ serverTurns 1 ++ [segmentTurn 5 (rteTcpPshFlag ||| rteTcpAckFlag) [1, 2]]
      ++ serverTurns 5 ++ [segmentTurn 5 (rteTcpFinFlag ||| rteTcpAckFlag) []] ++ serverTurns 5)
      (fun tr _ => tr.all (fun e => timely e.pre e.act)) = true := by
    decide +kernel
  rcases Machine.exists_run_of_check hcheck with ⟨tr, sys, hrun, hacts, htest⟩
  rw [List.all_eq_true] at htest
  exact ⟨tr, sys, hrun, hacts, readinessKept_of_timely hrun htest⟩

/-- Two clients connect before the server gets to `naccept`: it learns of one of them. -/
theorem not_readinessKept_of_merged : ¬∀ tr sys, ServerRun .init tr sys → ReadinessKept sys := by
  have hcheck : serverMachine.check .init
      (serverTurns 6 ++ connectTurns 5 ++ connectTurns 6 ++ serverTurns 3)
      (fun _ sys => sys.srv.pc == .wait && sys.stack.table.ep.all (fun ep => ep.rdlist.isEmpty)
        && (sys.stack.stream? 1).any (fun st => st.dport == htons 9999
          && st.status == .established && st.fd == -1)) = true := by
    decide +kernel
  rcases Machine.exists_run_of_check hcheck with ⟨tr, sys, hrun, _, htest⟩
  simp only [Bool.and_eq_true, beq_iff_eq, Option.all_eq_true, List.isEmpty_iff,
    Option.any_eq_true] at htest
  rcases htest with ⟨⟨hpc, hempty⟩, st, hst, ⟨hport, hstatus⟩, hneg⟩
  intro hall
  exact (hall tr sys hrun hpc hempty).accepted 1 st hst hport hstatus hneg

end NgStack
