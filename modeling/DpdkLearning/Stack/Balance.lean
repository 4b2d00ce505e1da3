import DpdkLearning.Stack.Established
import DpdkLearning.Stack.Lemmas.Descriptors
import Mathlib.Data.List.Perm.Subperm

/-!
This module contains the balance between the work that waits in the streams and the events that are to
announce it: when there is an event for each connection to accept and for each fragment to read, and
what each call and each segment does to that.
-/

open Lib

namespace NgStack

/--
The handshake is complete and the application has not closed the stream.
-/
def NgTcpStream.isOpen (st : NgTcpStream) : Bool :=
  st.status == .established || st.status == .closeWait

/--
The fragments of the stream are announced: `due` counts the events for each descriptor. The descriptor
that the application is about to close needs none.
-/
structure Announced (closing : Option Int) (due : Int → Nat) (st : NgTcpStream) : Prop where
  halfOpen : st.status = .synRcvd → st.fd = -1 ∧ st.rcvItems = []
  unaccepted : st.isOpen → st.fd = -1 → st.rcvItems = []
  accepted : st.isOpen → st.fd ≠ -1 → closing ≠ some st.fd
    → st.rcvItems.length ≤ due st.fd ∧ ∀ f ∈ st.rcvItems, f.length.toNat ≤ bufferSize

/--
The connections that wait to be accepted.
-/
def unaccepted (s : Stack) : List Addr :=
  s.table.tcbSet.addrs.filter (fun a => (s.stream? a).any (fun st => st.isOpen && st.fd == -1))

/--
There is an event of the listening socket for each connection to accept, and one of the connection for
each fragment to read.
-/
structure Balanced (s : Stack) (listenfd : Int) (closing : Option Int) (due : Int → Nat) : Prop where
  streams : ∀ a st, s.stream? a = some st → Announced closing due st
  accepts : (unaccepted s).length ≤ due listenfd

theorem mem_unaccepted_iff {s : Stack} {a : Addr}
    : a ∈ unaccepted s ↔ ∃ st, s.stream? a = some st ∧ st.isOpen ∧ st.fd = -1 := by
  unfold unaccepted
  simp only [List.mem_filter, Option.any_eq_true, Bool.and_eq_true, beq_iff_eq]
  constructor
  . rintro ⟨_, h⟩
    exact h
  . rintro ⟨st, hst, h⟩
    exact ⟨ObjList.mem_addrs_of_get? hst, st, hst, h⟩

theorem nodup_unaccepted (s : Stack) : (unaccepted s).Nodup :=
  s.table.tcbSet.nodup.filter _

theorem length_unaccepted_le {s : Stack} {l : List Addr}
    (h : ∀ a st, s.stream? a = some st → st.isOpen → st.fd = -1 → a ∈ l)
    : (unaccepted s).length ≤ l.length := by
  apply List.Subperm.length_le
  apply (nodup_unaccepted s).subperm
  intro a ha
  rcases mem_unaccepted_iff.mp ha with ⟨st, hst, hopen, hfd⟩
  exact h a st hst hopen hfd

/--
What a step that brings no work does to a stream: the stream has none, or it has no more than before.
-/
inductive Calm (o : Option NgTcpStream) (st' : NgTcpStream) : Prop where
  | idle (hopen : st'.isOpen = false)
    (hhalf : st'.status = .synRcvd → st'.fd = -1 ∧ st'.rcvItems = [])
  | fewer {st : NgTcpStream} (ho : o = some st) (hstatus : st'.status = st.status)
    (hfd : st'.fd = st.fd) (hrcv : st'.rcvItems.Sublist st.rcvItems)

theorem Calm.refl {o : Option NgTcpStream} {st : NgTcpStream} (h : o = some st) : Calm o st :=
  .fewer h rfl rfl (List.Sublist.refl _)

theorem isOpen_of_status {st st' : NgTcpStream} (h : st'.status = st.status)
    : st'.isOpen = st.isOpen := by
  unfold NgTcpStream.isOpen
  rw [h]

theorem Announced.mono {closing closing' : Option Int} {due due' : Int → Nat} {st : NgTcpStream}
    (h : Announced closing due st)
    (hkept : st.isOpen → closing' ≠ some st.fd
      → st.rcvItems = [] ∨ closing ≠ some st.fd ∧ due st.fd ≤ due' st.fd)
    : Announced closing' due' st := by
  refine ⟨h.halfOpen, h.unaccepted, ?_⟩
  intro hopen hneg hne
  rcases hkept hopen hne with hnil | ⟨hclosing, hdue⟩
  . simp [hnil]
  . rcases h.accepted hopen hneg hclosing with ⟨hlen, hshort⟩
    exact ⟨Nat.le_trans hlen hdue, hshort⟩

theorem Announced.of_calm {closing : Option Int} {due : Int → Nat} {o : Option NgTcpStream}
    {st' : NgTcpStream} (h : ∀ st, o = some st → Announced closing due st) (hcalm : Calm o st')
    : Announced closing due st' := by
  cases hcalm with
  | idle hopen hhalf =>
    rw [Bool.eq_false_iff] at hopen
    exact ⟨hhalf, fun h => absurd h hopen, fun h => absurd h hopen⟩
  | @fewer st ho hstatus hfd hrcv =>
    have hst := h st ho
    have hopen := isOpen_of_status hstatus
    constructor
    . intro hsyn
      rcases hst.halfOpen (hstatus ▸ hsyn) with ⟨hneg, hnil⟩
      rw [hnil, List.sublist_nil] at hrcv
      exact ⟨hfd.trans hneg, hrcv⟩
    . intro hopen' hneg
      rw [hst.unaccepted (hopen ▸ hopen') (hfd ▸ hneg), List.sublist_nil] at hrcv
      exact hrcv
    . intro hopen' hneg hne
      rw [hopen] at hopen'
      rw [hfd] at hneg hne ⊢
      rcases hst.accepted hopen' hneg hne with ⟨hlen, hshort⟩
      exact ⟨Nat.le_trans hrcv.length_le hlen, fun f hf => hshort f (hrcv.subset hf)⟩

theorem Calm.waiting {o : Option NgTcpStream} {st' : NgTcpStream} (h : Calm o st')
    (hopen : st'.isOpen) (hfd : st'.fd = -1) : ∃ st, o = some st ∧ st.isOpen ∧ st.fd = -1 := by
  cases h with
  | idle hnot _ =>
    rw [hopen] at hnot
    contradiction
  | @fewer st ho hstatus hfd' _ =>
    exact ⟨st, ho, isOpen_of_status hstatus ▸ hopen, hfd'.symm.trans hfd⟩

namespace Balanced

variable {s s' : Stack} {listenfd : Int} {closing : Option Int} {due due' : Int → Nat} {a : Addr}
  {st st' : NgTcpStream}

theorem of_calm {listenfd' : Int} {closing' : Option Int} (h : Balanced s listenfd closing due)
    (hcalm : ∀ a st', s'.stream? a = some st' → Calm (s.stream? a) st')
    (hkept : ∀ a st', s'.stream? a = some st' → st'.isOpen → closing' ≠ some st'.fd
      → st'.rcvItems = [] ∨ closing ≠ some st'.fd ∧ due st'.fd ≤ due' st'.fd)
    (hlisten : due listenfd ≤ due' listenfd') : Balanced s' listenfd' closing' due' := by
  constructor
  . intro a st' hst'
    exact (Announced.of_calm (h.streams a) (hcalm a st' hst')).mono (hkept a st' hst')
  . refine Nat.le_trans ?_ (Nat.le_trans h.accepts hlisten)
    apply length_unaccepted_le
    intro a st' hst' hopen hfd
    rw [mem_unaccepted_iff]
    exact (hcalm a st' hst').waiting hopen hfd

theorem of_due_le (h : Balanced s listenfd closing due)
    (hcalm : ∀ a st', s'.stream? a = some st' → Calm (s.stream? a) st')
    (hdue : ∀ fd, due fd ≤ due' fd) : Balanced s' listenfd closing due' :=
  h.of_calm hcalm (fun _ _ _ _ hne => .inr ⟨hne, hdue _⟩) (hdue listenfd)

theorem close_soon (h : Balanced s listenfd none due) (fd : Int)
    : Balanced s listenfd (some fd) due :=
  h.of_calm (fun _ _ hst => .refl hst) (fun _ _ _ _ _ => .inr ⟨nofun, Nat.le_refl _⟩) (Nat.le_refl _)

/-- An event of the listening socket pays for a handshake. -/
theorem handshake (h : Balanced s listenfd closing due) (hst : s.stream? a = some st)
    (hstatus : st.status = .synRcvd) (hstatus' : st'.status = .established) (hfd : st'.fd = st.fd)
    (hrcv : st'.rcvItems = st.rcvItems)
    (hget : ∀ b, s'.stream? b = if b = a then some st' else s.stream? b)
    (hdue : ∀ fd, due fd ≤ due' fd) (hlisten : due listenfd + 1 ≤ due' listenfd)
    : Balanced s' listenfd closing due' := by
  rcases (h.streams a st hst).halfOpen hstatus with ⟨hneg, hnil⟩
  constructor
  . intro b st1 hst1
    rw [hget] at hst1
    split at hst1
    . cases hst1
      constructor
      . intro hsyn
        rw [hstatus'] at hsyn
        contradiction
      . exact fun _ _ => hrcv.trans hnil
      . exact fun _ hne => absurd (hfd.trans hneg) hne
    . exact (h.streams b st1 hst1).mono (fun _ hne => .inr ⟨hne, hdue _⟩)
  -- The connection now waits to be accepted, which the event of the listening socket announces.
  . calc (unaccepted s').length
      _ ≤ (a :: unaccepted s).length := by
        apply length_unaccepted_le
        intro b st1 hst1 hopen hneg1
        rw [List.mem_cons]
        rw [hget] at hst1
        split at hst1
        . next heq => exact .inl heq
        . exact .inr (mem_unaccepted_iff.mpr ⟨st1, hst1, hopen, hneg1⟩)
      _ = (unaccepted s).length + 1 := List.length_cons
      _ ≤ due listenfd + 1 := Nat.succ_le_succ h.accepts
      _ ≤ due' listenfd := hlisten

/-- An event of the connection pays for a fragment. -/
theorem segment {frs : List NgTcpFragment} (h : Balanced s listenfd closing due)
    (hst : s.stream? a = some st) (hopen : st.isOpen) (hfd : st'.fd = st.fd)
    (hsyn : st'.status ≠ .synRcvd) (hrcv : st'.rcvItems = st.rcvItems ++ frs)
    (hget : ∀ b, s'.stream? b = if b = a then some st' else s.stream? b)
    (hdue : ∀ fd, due fd ≤ due' fd)
    (hpaid : frs = [] ∨ st.fd ≠ -1 ∧ (closing = some st.fd
      ∨ due st.fd + frs.length ≤ due' st.fd ∧ ∀ f ∈ frs, f.length.toNat ≤ bufferSize))
    : Balanced s' listenfd closing due' := by
  have hold := h.streams a st hst
  constructor
  . intro b st1 hst1
    rw [hget] at hst1
    split at hst1
    . cases hst1
      refine ⟨fun h => absurd h hsyn, ?_, ?_⟩
      . intro _ hneg
        rw [hfd] at hneg
        rcases hpaid with rfl | ⟨hne, _⟩
        . rw [hrcv, hold.unaccepted hopen hneg, List.append_nil]
        . exact absurd hneg hne
      . intro _ hne hclosing
        rw [hfd] at hne hclosing ⊢
        rcases hold.accepted hopen hne hclosing with ⟨hlen, hshort⟩
        have hless := hdue st.fd
        rw [hrcv, List.length_append]
        -- Each new fragment is paid for by an event, unless the stream is about to be closed.
        rcases hpaid with rfl | ⟨_, hclosing' | ⟨hpaid, hshort'⟩⟩
        . rw [List.append_nil, List.length_nil]
          exact ⟨by omega, hshort⟩
        . exact absurd hclosing' hclosing
        . refine ⟨by omega, ?_⟩
          intro f hf
          rcases List.mem_append.mp hf with hf | hf
          . exact hshort f hf
          . exact hshort' f hf
    . exact (h.streams b st1 hst1).mono (fun _ hne => .inr ⟨hne, hdue _⟩)
  -- No segment makes a connection wait to be accepted that did not wait before.
  . refine Nat.le_trans ?_ (Nat.le_trans h.accepts (hdue listenfd))
    apply length_unaccepted_le
    intro b st1 hst1 hopen1 hneg
    rw [mem_unaccepted_iff]
    rw [hget] at hst1
    split at hst1
    . next heq =>
      cases hst1
      exact ⟨st, heq ▸ hst, hopen, hfd.symm.trans hneg⟩
    . exact ⟨st1, hst1, hopen1, hneg⟩

/-- Accepting a connection takes an event of the listening socket. -/
theorem accept (h : Balanced s listenfd closing due) (hst : s.stream? a = some st)
    (hopen : st.isOpen) (hneg : st.fd = -1) (hfd' : st'.fd ≠ -1) (hstatus : st'.status = st.status)
    (hrcv : st'.rcvItems = st.rcvItems)
    (hget : ∀ b, s'.stream? b = if b = a then some st' else s.stream? b)
    (hother : ∀ b st, s.stream? b = some st → st.isOpen → st.fd ≠ listenfd)
    (hdue : ∀ fd, fd ≠ listenfd → due fd ≤ due' fd) (hlisten : due listenfd ≤ due' listenfd + 1)
    : Balanced s' listenfd closing due' := by
  have hnil := (h.streams a st hst).unaccepted hopen hneg
  have hmem : a ∈ unaccepted s := mem_unaccepted_iff.mpr ⟨st, hst, hopen, hneg⟩
  constructor
  . intro b st1 hst1
    rw [hget] at hst1
    split at hst1
    . cases hst1
      constructor
      . intro hsyn
        rw [hstatus] at hsyn
        simp [NgTcpStream.isOpen, hsyn] at hopen
      . exact fun _ hneg' => absurd hneg' hfd'
      . simp [hrcv, hnil]
    . apply (h.streams b st1 hst1).mono
      intro hopen1 hne
      exact .inr ⟨hne, hdue _ (hother b st1 hst1 hopen1)⟩
  -- One connection less waits to be accepted.
  . have hle : (unaccepted s').length ≤ ((unaccepted s).erase a).length := by
      apply length_unaccepted_le
      intro b st1 hst1 hopen1 hneg1
      rw [(nodup_unaccepted s).mem_erase_iff]
      rw [hget] at hst1
      split at hst1
      . cases hst1
        exact absurd hneg1 hfd'
      . next hne => exact ⟨hne, mem_unaccepted_iff.mpr ⟨st1, hst1, hopen1, hneg1⟩⟩
    rw [List.length_erase_of_mem hmem] at hle
    have := h.accepts
    omega

/-- Reading a fragment takes an event of the connection. -/
theorem read {f : NgTcpFragment} {rest : List NgTcpFragment} (h : Balanced s listenfd closing due)
    (hst : s.stream? a = some st) (hitems : st.rcvItems = f :: rest)
    (hstatus : st'.status = st.status) (hfd : st'.fd = st.fd)
    (hrcv : f.length.toNat ≤ bufferSize → st'.rcvItems = rest)
    (hget : ∀ b, s'.stream? b = if b = a then some st' else s.stream? b)
    (hclosing : closing ≠ some st.fd) (hlisten : st.fd ≠ listenfd)
    (hother : ∀ b st1, s.stream? b = some st1 → st1.isOpen → st1.fd = st.fd → b = a)
    (hdue : ∀ fd, fd ≠ st.fd → due fd ≤ due' fd) (hread : due st.fd ≤ due' st.fd + 1)
    : Balanced s' listenfd closing due' := by
  have hold := h.streams a st hst
  have hopen := isOpen_of_status hstatus
  -- A stream with something to read was accepted before.
  have hne : st.isOpen → st.fd ≠ -1 := by
    intro hopen hneg
    have := hold.unaccepted hopen hneg
    rw [hitems] at this
    contradiction
  constructor
  . intro b st1 hst1
    rw [hget] at hst1
    split at hst1
    . cases hst1
      constructor
      . intro hsyn
        have := (hold.halfOpen (hstatus ▸ hsyn)).2
        rw [hitems] at this
        contradiction
      . intro hopen' hneg
        rw [hopen] at hopen'
        exact absurd (hfd.symm.trans hneg) (hne hopen')
      . intro hopen' hneg _
        rw [hopen] at hopen'
        rcases hold.accepted hopen' (hne hopen') hclosing with ⟨hlen, hshort⟩
        rw [hitems] at hlen hshort
        rw [hrcv (hshort f List.mem_cons_self), hfd]
        refine ⟨?_, fun g hg => hshort g (List.mem_cons_of_mem f hg)⟩
        rw [List.length_cons] at hlen
        omega
    . next hba =>
      apply (h.streams b st1 hst1).mono
      intro hopen1 hclosing1
      refine .inr ⟨hclosing1, hdue _ ?_⟩
      intro heq
      exact hba (hother b st1 hst1 hopen1 heq)
  . refine Nat.le_trans ?_ (Nat.le_trans h.accepts (hdue _ hlisten.symm))
    apply length_unaccepted_le
    intro b st1 hst1 hopen1 hneg
    rw [mem_unaccepted_iff]
    rw [hget] at hst1
    split at hst1
    . next heq =>
      cases hst1
      exact ⟨st, heq ▸ hst, hopen ▸ hopen1, hfd.symm.trans hneg⟩
    . exact ⟨st1, hst1, hopen1, hneg⟩

end Balanced

/-- Apart from `naccept`, `nrecv` and the segments, no step brings or takes work. -/
theorem calm_of_streamStep {s : Stack} {a : Addr} {act : Act} {frames : List NgTcpFragment}
    {o : Option NgTcpStream} {st' : NgTcpStream} (h : StreamStep s a act frames o (some st'))
    (haccept : ∀ sockfd, act ≠ .naccept sockfd) (hrecv : ∀ sockfd buf len, act ≠ .nrecv sockfd buf len)
    (hprocess : ∀ env m, act ≠ .ngTcpProcess env m) : Calm o st' := by
  cases h with
  | same _ => exact .refl rfl
  | opened _ _ hstatus _ _ _ _ => exact .idle (by simp [NgTcpStream.isOpen, hstatus]) (by simp [hstatus])
  | bound _ _ => exact .idle rfl (by simp)
  | listened _ _ => exact .idle rfl (by simp)
  | fin _ _ _ _ _ _ _ => exact .idle rfl (by simp)
  | sent _ _ _ => exact .fewer rfl rfl rfl (List.Sublist.refl _)
  | out _ h => cases h <;> exact .fewer rfl rfl rfl (List.Sublist.refl _)
  | accepted hact _ _ => exact absurd hact (haccept _)
  | read hact _ _ => exact absurd hact (hrecv _ _ _)
  | halfOpen hact _ _ => exact absurd hact (hprocess _ _)
  | synAck hact _ _ _ => exact absurd hact (hprocess _ _)
  | handshake hact _ _ _ _ => exact absurd hact (hprocess _ _)
  | segment hact _ _ _ _ => exact absurd hact (hprocess _ _)

end NgStack
