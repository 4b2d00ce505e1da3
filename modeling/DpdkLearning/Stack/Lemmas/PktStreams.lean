import DpdkLearning.Stack.Lemmas.Descriptors
import DpdkLearning.Stack.Lemmas.PktThread

/-!
This module contains what one step of the packet thread or of an application can do to the streams.
-/

open Lib

namespace NgStack

/--
The fragment of the stream at `a` that a pass of `ng_tcp_out` holds, between the dequeue and the frame.
-/
def PktPc.inFlight (a : Addr) : PktPc → List NgTcpFragment
  | .tcpSend b f _ => if b = a then [f] else []
  | _ => []

theorem frames_of_act {s s' : Stack} {act : Act} {out : Out} (h : machine.step s act = .ok (s', out))
    (hact : act.isCall = true ∨ (∃ env m, act = .udpProcess env m) ∨ (∃ env m, act = .ngTcpProcess env m)
      ∨ ∃ malloc ip mac, act = .ngArpEntryInsert malloc ip mac)
    : (∀ env, act ≠ .ngTcpOut env) ∧ out.udpFrames = [] ∧ out.tcpFrames = [] := by
  have htcp : ∀ env, act ≠ .ngTcpOut env := by
    rintro env rfl
    rcases hact with hact | ⟨_, _, hact⟩ | ⟨_, _, hact⟩ | ⟨_, _, _, hact⟩ <;> contradiction
  have hudp : ∀ env, act ≠ .udpOut env := by
    rintro env rfl
    rcases hact with hact | ⟨_, _, hact⟩ | ⟨_, _, hact⟩ | ⟨_, _, _, hact⟩ <;> contradiction
  exact ⟨htcp, frames_of_stepped (stepped_of_step h) hudp htcp⟩

/--
A step of the machine, seen from the streams: an action of the stack, a step that concerns none of them,
or one of the two halves of `ng_tcp_out`.
-/
inductive StreamsStep (sys : PktSys) (t : PktSys.Turn) (sys' : PktSys) (out : Out) : Prop where
  | acted {act : Act} (h : machine.step sys.stack act = .ok (sys'.stack, out))
    (hact : ∀ env, act ≠ .ngTcpOut env) (hframes : out.tcpFrames = [])
    (hpc : ∀ a, sys'.pc.inFlight a = sys.pc.inFlight a)
    (hturn : (∃ c : Call, t = .call c ∧ act = c.1)
      ∨ act.isCall = false ∧ (∃ env ring, t = .pktProcess env ring) ∧ ∀ a, sys.pc.inFlight a = [])
  | apart (htable : sys'.stack.table = sys.stack.table) (hframes : out.tcpFrames = [])
    (hpc : ∀ a, sys.pc.inFlight a = [] ∧ sys'.pc.inFlight a = [])
    (hturn : ∃ env ring, t = .pktProcess env ring)
  | taken {b : Addr} {st : NgTcpStream} {f : NgTcpFragment} {sndbuf : RteRing NgTcpFragment}
    (hst : sys.stack.stream? b = some st) (hsnd : st.sndItems = f :: sndbuf.items)
    (hstack : sys'.stack = sys.stack.modifyStream b (fun _ => { st with sndbuf := some sndbuf }))
    (hframes : out.tcpFrames = []) (hpc : ∀ a, sys.pc.inFlight a = [])
    (hpc' : ∀ a, sys'.pc.inFlight a = if b = a then [f] else [])
    (hturn : ∃ env ring, t = .pktProcess env ring)
  | sent {b : Addr} {st : NgTcpStream} {f : NgTcpFragment} {frame : TcpFrame}
    (hst : sys.stack.stream? b = some st) (hmac : (ngGetDstMacaddr sys.stack.arpt st.sip).isSome)
    (hstack : sys'.stack = sys.stack.modifyStream b (fun _ => st)) (hframes : out.tcpFrames = [frame])
    (hframe : frame.stream = b ∧ frame.fragment = f)
    (hpc : ∀ a, sys.pc.inFlight a = if b = a then [f] else []) (hpc' : ∀ a, sys'.pc.inFlight a = [])
    (hturn : ∃ env ring, t = .pktProcess env ring ∧ frame.sent = env.outRoom b)
  | requeued {b : Addr} {st : NgTcpStream} {f : NgTcpFragment} {sndbuf : RteRing NgTcpFragment}
    (hst : sys.stack.stream? b = some st) (hmiss : ngGetDstMacaddr sys.stack.arpt st.sip = none)
    (hsnd : sndbuf.items = st.sndItems ++ enqueued st.sndItems.length f)
    (hstack : sys'.stack = sys.stack.modifyStream b (fun _ => { st with sndbuf := some sndbuf }))
    (hframes : out.tcpFrames = []) (hpc : ∀ a, sys.pc.inFlight a = if b = a then [f] else [])
    (hpc' : ∀ a, sys'.pc.inFlight a = []) (hturn : ∃ env ring, t = .pktProcess env ring)

theorem inFlight_of_not_sending {pc : PktPc} (h : pc.sending = false) (a : Addr) : pc.inFlight a = [] := by
  cases pc <;> first | rfl | contradiction

theorem inFlight_of_between {pc : PktPc} (h : pc.between = true) (a : Addr) : pc.inFlight a = [] := by
  cases pc <;> first | rfl | contradiction

theorem streamsStep_of_step {e : PktStep} (hstep : pktMachine.step e.pre e.act = .ok (e.post, e.out))
    : StreamsStep e.pre e.act e.post e.out := by
  have h := pktStepped_of_step hstep
  generalize e.act = t at h ⊢
  generalize e.out = out at h ⊢
  generalize e.post = sys' at h ⊢
  cases h with
  | @called c stack out h =>
    have hframes := frames_of_act h (.inl c.2)
    exact .acted h hframes.1 hframes.2.2 (fun _ => rfl) (.inl ⟨c, rfl, rfl⟩)
  | entered hpc h =>
    have hframes := frames_of_act h (.inr (.inr (.inr ⟨_, _, _, rfl⟩)))
    have hpc' : ∀ a, e.pre.pc.inFlight a = [] := by
      rw [hpc]
      exact fun _ => rfl
    exact .acted h hframes.1 hframes.2.2 (fun a => (hpc' a).symm) (.inr ⟨rfl, ⟨_, _, rfl⟩, hpc'⟩)
  | processed hpc hact h =>
    have hpc' : ∀ a, e.pre.pc.inFlight a = [] := by
      rw [hpc]
      exact fun _ => rfl
    rcases hact with rfl | rfl
    . have hframes := frames_of_act h (.inr (.inl ⟨_, _, rfl⟩))
      exact .acted h hframes.1 hframes.2.2 (fun a => (hpc' a).symm) (.inr ⟨rfl, ⟨_, _, rfl⟩, hpc'⟩)
    . have hframes := frames_of_act h (.inr (.inr (.inl ⟨_, _, rfl⟩)))
      exact .acted h hframes.1 hframes.2.2 (fun a => (hpc' a).symm) (.inr ⟨rfl, ⟨_, _, rfl⟩, hpc'⟩)
  -- Steps that the thread takes without a look at the stack, and those for datagram sockets.
  | went hpc hpc' =>
    exact .apart rfl rfl (fun a => ⟨inFlight_of_not_sending hpc a, inFlight_of_between hpc' a⟩) ⟨_, _, rfl⟩
  | udpTaken hpc | udpSent hpc | udpRequeued hpc =>
    refine .apart rfl rfl (fun a => ⟨?_, rfl⟩) ⟨_, _, rfl⟩
    rw [hpc]
    rfl
  | tcpTaken hpc hst hsnd =>
    refine .taken hst hsnd rfl rfl (fun a => ?_) (fun a => rfl) ⟨_, _, rfl⟩
    rw [hpc]
    rfl
  | tcpSent hpc hst hmac hframe hsent =>
    refine .sent hst hmac rfl rfl hframe (fun a => ?_) (fun a => rfl) ⟨_, _, rfl, hsent⟩
    rw [hpc]
    rfl
  | tcpRequeued hpc hst hmiss hsnd =>
    refine .requeued hst hmiss hsnd rfl rfl (fun a => ?_) (fun a => rfl) ⟨_, _, rfl⟩
    rw [hpc]
    rfl

end NgStack
