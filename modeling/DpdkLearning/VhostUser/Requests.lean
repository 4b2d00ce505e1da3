import Mathlib.Data.List.Forall2
import DpdkLearning.Lib.Machine
import DpdkLearning.VhostUser.Lemmas.Wire

/-!
This module contains the proof that the requests of a client arrive: in whichever order the two processes send
and receive, the server reads what the client was asked to tell. A request that names a descriptor which is not
open is not sent.
-/

open Lib

namespace VhostUser

namespace Wire

/--
A request, with the descriptors that the client has open, or a message that is taken.
-/
inductive Act where
  | send (opened : Int → Bool) (io : Ioctl)
  | recv (old : VhostUserMsg)

/--
A request that was sent, one for which `vhost_ioctl` returns -1, a message that was received, or a call that
blocks.
-/
inductive Out where
  | sent (io : Ioctl)
  | failed (io : Ioctl)
  | received (r : Received)
  | blocked

end Wire

/--
One process calls `vhost_ioctl` and the other `vhost_user_recv_fds`, into a message that holds anything.
-/
def wire (shmFds : Nat → Int) : Machine Socket Wire.Act Wire.Out Halt where
  step s act :=
    match act with
    | .send opened io =>
      match vhostIoctl shmFds io with
      | .error e => .error e
      | .ok (msg, fds) =>
        let sent := vhostUserSendFds opened s msg fds
        .ok (sent.2, if sent.1 < 0 then .failed io else .sent io)
    | .recv old =>
      match vhostUserRecvFds s old vhostMemoryMaxNregions with
      | .error e => .error e
      | .ok none => .ok (s, .blocked)
      | .ok (some r) => .ok (r.socket, .received r)

namespace Wire

abbrev Step : Type := Edge Socket Act Out

def requests (tr : List Step) : List Ioctl :=
  tr.filterMap (fun e => match e.out with | .sent io => some io | _ => none)

def messages (tr : List Step) : List Received :=
  tr.filterMap (fun e => match e.out with | .received r => some r | _ => none)

variable {shmFds : Nat → Int} {s t : Socket} {tr : List Step} {act : Act} {out : Out}

/--
A message says what a request does.
-/
def Says (shmFds : Nat → Int) (io : Ioctl) (r : Received) : Prop :=
  r.ret = vhostUserHdrSize ∧ r.msg.request = io.request ∧ r.msg.flags = vhostUserVersion
    ∧ io.Reads shmFds r.msg r.fds

/--
The requests that were sent and not yet received.
-/
def InFlight (shmFds : Nat → Int) (tr : List Step) (s : Socket) (pending : List Ioctl) : Prop :=
  s = pending.map (frame shmFds) ∧ (∀ io ∈ pending, ∃ bytes fds, io.payload shmFds = .ok (bytes, fds))
    ∧ ∃ read, requests tr = read ++ pending ∧ List.Forall₂ (Says shmFds) read (messages tr)

theorem recv_pending (old : VhostUserMsg) {io : Ioctl} {pending : List Ioctl}
    (hmade : ∀ io' ∈ io :: pending, ∃ bytes fds, io'.payload shmFds = .ok (bytes, fds))
    : ∃ r, (wire shmFds).step ((io :: pending).map (frame shmFds)) (.recv old)
        = .ok (pending.map (frame shmFds), .received r) ∧ Says shmFds io r := by
  rcases hmade io (by simp) with ⟨bytes, fds, hpayload⟩
  rcases recv_frame old (pending.map (frame shmFds)) hpayload
    with ⟨r, hrecv, hret, hsocket, hrequest, hflags, hfds, hreads⟩
  refine ⟨r, ?_, hret, hrequest, hflags, ?_⟩
  . simp only [wire, List.map_cons, hrecv, hsocket]
  . rw [hfds]
    exact hreads

/-- What a call of `vhost_ioctl` comes to. -/
theorem send_cases {opened : Int → Bool} {io : Ioctl} (hstep : (wire shmFds).step s (.send opened io) = .ok (t, out))
    : ∃ bytes fds, io.payload shmFds = .ok (bytes, fds)
      ∧ ((fds.all opened = true ∧ out = .sent io ∧ t = s ++ [frame shmFds io])
        ∨ (fds.all opened = false ∧ out = .failed io ∧ t = s)) := by
  simp only [wire] at hstep
  split at hstep
  . contradiction
  . next msg fds hioctl =>
    cases hstep
    rcases payload_of_vhostIoctl hioctl with ⟨bytes, hpayload⟩
    refine ⟨bytes, fds, hpayload, ?_⟩
    cases hopened : fds.all opened with
    | true =>
      rcases send_frame hioctl hopened s with ⟨hret, hsent⟩
      exact .inl ⟨rfl, if_neg (Int.not_lt.mpr hret), hsent⟩
    | false =>
      -- `sendmsg` returns -1.
      refine .inr ⟨rfl, ?_, ?_⟩
      . simp [vhostUserSendFds, hopened]
      . simp [vhostUserSendFds, hopened]

theorem InFlight.step {pending : List Ioctl} (h : InFlight shmFds tr s pending)
    (hstep : (wire shmFds).step s act = .ok (t, out))
    : ∃ pending', InFlight shmFds (tr ++ [⟨s, act, out, t⟩]) t pending' := by
  rcases h with ⟨rfl, hmade, read, hrequests, hread⟩
  cases act with
  | send opened io =>
    rcases send_cases hstep with ⟨bytes, fds, hpayload, ⟨_, rfl, rfl⟩ | ⟨_, rfl, rfl⟩⟩
    . refine ⟨pending ++ [io], ?_, ?_, read, ?_, ?_⟩
      . rw [List.map_append, List.map_singleton]
      . rw [List.forall_mem_append, List.forall_mem_singleton]
        exact ⟨hmade, bytes, fds, hpayload⟩
      . rw [requests, List.filterMap_append, ← requests, hrequests, List.append_assoc]
        rfl
      . rw [messages, List.filterMap_append, ← messages]
        simpa using hread
    . refine ⟨pending, rfl, hmade, read, ?_, ?_⟩
      . rw [requests, List.filterMap_append, ← requests, hrequests]
        simp
      . rw [messages, List.filterMap_append, ← messages]
        simpa using hread
  | recv old =>
    cases pending with
    | nil =>
      -- There is nothing to be read.
      simp only [wire, vhostUserRecvFds, List.map_nil, Socket.recvmsg] at hstep
      cases hstep
      refine ⟨[], rfl, hmade, read, ?_, ?_⟩
      . rw [requests, List.filterMap_append, ← requests, hrequests]
        simp
      . rw [messages, List.filterMap_append, ← messages]
        simpa using hread
    | cons io pending =>
      rcases recv_pending old hmade with ⟨r, hrecv, htells⟩
      rw [hrecv] at hstep
      cases hstep
      refine ⟨pending, rfl, fun io' hio' => hmade io' (List.mem_cons_of_mem _ hio'), read ++ [io], ?_, ?_⟩
      . rw [requests, List.filterMap_append, ← requests, hrequests]
        simp
      . rw [messages, List.filterMap_append, ← messages]
        exact List.rel_append hread (.cons htells .nil)

/--
In every run of a process that sends requests and one that receives them, the messages that were received say
what the first of the requests that were sent do, each in its turn. The others are still in the socket, no call
to receive one fails, and it blocks only if there is none. A request is sent if the descriptors that go with it
are open, else its call returns -1 and the socket is as before.
-/
theorem requests_arrive (h : Machine.Run (wire shmFds) [] tr t)
    : List.Forall₂ (Says shmFds) ((requests tr).take (messages tr).length) (messages tr)
      ∧ t = ((requests tr).drop (messages tr).length).map (frame shmFds)
      ∧ (∀ old, ∃ s out, (wire shmFds).step t (.recv old) = .ok (s, out)
        ∧ (out = .blocked ↔ (requests tr).length = (messages tr).length))
      ∧ ∀ e ∈ tr, ∀ opened io, e.act = .send opened io → ∃ bytes fds, io.payload shmFds = .ok (bytes, fds)
        ∧ ((fds.all opened = true ∧ e.out = .sent io)
          ∨ (fds.all opened = false ∧ e.out = .failed io ∧ e.post = e.pre)) := by
  have hflight : ∃ pending, InFlight shmFds tr t pending := by
    refine h.history (P := fun tr t => ∃ pending, InFlight shmFds tr t pending) ?_ ?_
    . exact ⟨[], rfl, by simp, [], rfl, .nil⟩
    . rintro tr t act out u _ ⟨pending, hpending⟩ hstep
      exact hpending.step hstep
  rcases hflight with ⟨pending, rfl, hmade, read, hrequests, hread⟩
  have hlen := hread.length_eq
  rw [hrequests, ← hlen, List.take_left, List.drop_left]
  refine ⟨hread, rfl, ?_, ?_⟩
  . intro old
    cases pending with
    | nil => exact ⟨[], .blocked, rfl, by simp⟩
    | cons io pending =>
      rcases recv_pending old hmade with ⟨r, hrecv, _⟩
      exact ⟨_, _, hrecv, by simp⟩
  . intro e he opened io hact
    have hstep := h.step_of_mem he
    rw [hact] at hstep
    rcases send_cases hstep with ⟨bytes, fds, hpayload, ⟨hopened, hout, _⟩ | ⟨hopened, hout, hpost⟩⟩
    . exact ⟨bytes, fds, hpayload, .inl ⟨hopened, hout⟩⟩
    . exact ⟨bytes, fds, hpayload, .inr ⟨hopened, hout, hpost⟩⟩

/-- Of two requests that are sent one has been received. A third names a descriptor that is not open. -/
theorem requests_arrive_two
    : ∃ tr t, Machine.Run (wire (fun i => 5 + i)) [] tr t
      ∧ (requests tr).length = 2 ∧ List.Forall₂ (Says (fun i => 5 + i)) ((requests tr).take 1) (messages tr)
      ∧ t = ((requests tr).drop 1).map (frame (fun i => 5 + i)) := by
  have hcheck : (wire (fun i => 5 + i)).check []
      [.send (fun fd => 0 ≤ fd) .getFeatures, .send (fun fd => 0 ≤ fd) (.setLogFd (-1)),
        .send (fun fd => 0 ≤ fd) (.setVringNum { index := 1, num := 32768 }), .recv { mem := fun _ => 7 }]
      (fun tr _ => decide ((requests tr).length = 2) && decide ((messages tr).length = 1)) = true := by
    decide +kernel
  rcases Machine.exists_run_of_check hcheck with ⟨tr, t, hrun, _, htest⟩
  simp only [Bool.and_eq_true, decide_eq_true_eq] at htest
  rcases requests_arrive hrun with ⟨htells, hrest, _⟩
  rw [htest.2] at htells hrest
  exact ⟨tr, t, hrun, htest.1, htells, hrest⟩

end Wire

end VhostUser
