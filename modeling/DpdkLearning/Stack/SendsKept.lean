import DpdkLearning.Lib.Ledger
import DpdkLearning.Stack.Established
import DpdkLearning.Stack.Lemmas.PktStreams

/-!
This module contains what becomes of the data that `nsend` and `nsendto` have accepted: it is on a send
buffer at once, and the passes of the packet thread put each item into one frame or leave it there, as
long as the buffers and `ring->out` have room for what is put on them.
-/

open Lib

namespace NgStack

/--
The fragments of `nsend`. What the stack sends of its own has no data.
-/
def carriesData (f : NgTcpFragment) : Bool :=
  f.length != 0

def dataOf (st : Option NgTcpStream) : List NgTcpFragment :=
  ((st.map NgTcpStream.sndItems).getD []).filter carriesData

def datagramsOf (host : Option Localhost) : List Offload :=
  (host.map Localhost.sndItems).getD []

/--
The data on the send buffer of the stream at `a`.
-/
def dataQueued (a : Addr) (sys : PktSys) : List NgTcpFragment :=
  dataOf (sys.stack.stream? a)

/--
The datagrams on the send buffer of the socket at `a`.
-/
def datagramsQueued (a : Addr) (sys : PktSys) : List Offload :=
  datagramsOf (sys.stack.lhost.get? a)

def dataHeld (a : Addr) (sys : PktSys) : List NgTcpFragment :=
  (sys.pc.inFlight a).filter carriesData

/--
The datagram of the socket at `a` that a pass of `udp_out` holds, between the dequeue and the frame.
-/
def datagramsHeld (a : Addr) (sys : PktSys) : List Offload :=
  match sys.pc with
  | .udpSend b ol _ => if b = a then [ol] else []
  | _ => []

/--
The data of the stream at `a` whose frame the step puts on `ring->out`.
-/
def dataFramed (a : Addr) (e : PktStep) : List NgTcpFragment :=
  (framesOf a (e.out.tcpFrames.filter TcpFrame.sent)).filter carriesData

def datagramsFramed (a : Addr) (e : PktStep) : List Offload :=
  (e.out.udpFrames.filter (fun f => f.sent && f.host == a)).map UdpFrame.ol

/--
What a stream takes with it when it goes.
-/
def dataClosed (a : Addr) (e : PktStep) : List NgTcpFragment :=
  if (e.post.stack.stream? a).isNone then dataQueued a e.pre else []

def datagramsClosed (a : Addr) (e : PktStep) : List Offload :=
  if (e.post.stack.lhost.get? a).isNone then datagramsQueued a e.pre else []

/--
The fragment that an `nsend` on the stream at `a` is about when it returns a positive length.
-/
def nsendAccepted (a : Addr) (e : PktStep) : List NgTcpFragment :=
  match e.act with
  | .call ⟨.nsend _ fd buf, _⟩ =>
    match getHostinfoFromfd e.pre.stack fd with
    | some (.stream b st) => if b = a ∧ 0 < e.out.ret then [st.sndFragment buf] else []
    | _ => []
  | _ => []

/--
The datagram that an `nsendto` on the socket at `a` is about when it returns a positive length.
-/
def nsendtoAccepted (a : Addr) (e : PktStep) : List Offload :=
  match e.act with
  | .call ⟨.nsendto _ fd buf sinPort sAddr, _⟩ =>
    match getHostinfoFromfd e.pre.stack fd with
    | some (.host b host) => if b = a ∧ 0 < e.out.ret then [host.sndOffload buf sinPort sAddr] else []
    | _ => []
  | _ => []

/--
What is accepted is on the send buffer when the call returns, and later on each item has become one frame
on `ring->out`, has gone with its socket, is in the hands of a pass or still on the send buffer.
-/
structure SendsKept (tr : List PktStep) (sys : PktSys) : Prop where
  nsend : ∀ a, Kept (nsendAccepted a) (dataFramed a) (dataClosed a) (dataHeld a) (dataQueued a) tr sys
  nsendto : ∀ a, Kept (nsendtoAccepted a) (datagramsFramed a) (datagramsClosed a) (datagramsHeld a)
    (datagramsQueued a) tr sys

/--
The data that a turn puts on a ring: that of an `nsend` that gets its memory goes on the send buffer, and that
of a fragment that `ng_tcp_out` holds on `ring->out`, or back while its peer's address is not known.
-/
def PktSys.nextFragment (sys : PktSys) : PktSys.Turn → Option (Addr × NgTcpFragment)
  | .call ⟨.nsend env fd buf, _⟩ =>
    match getHostinfoFromfd sys.stack fd with
    | some (.stream a st) =>
      if st.protocol == ipprotoTcp && env.rteMalloc 0 && env.rteMalloc 1 && carriesData (st.sndFragment buf) then
        some (a, st.sndFragment buf)
      else
        none
    | _ => none
  | .pktProcess _ _ =>
    match sys.pc with
    | .tcpSend a f _ => if carriesData f then some (a, f) else none
    | _ => none
  | _ => none

/--
The datagram that a turn puts on a ring: that of an `nsendto` that gets its memory, or the one that `udp_out`
holds.
-/
def PktSys.nextDatagram (sys : PktSys) : PktSys.Turn → Option (Addr × Offload)
  | .call ⟨.nsendto env fd buf sinPort sAddr, _⟩ =>
    match getHostinfoFromfd sys.stack fd with
    | some (.host a host) =>
      if env.rteMalloc 0 && (env.rteMalloc 1 && decide (0 < buf.length)) then
        some (a, host.sndOffload buf sinPort sAddr)
      else
        none
    | _ => none
  | .pktProcess _ _ =>
    match sys.pc with
    | .udpSend a ol _ => some (a, ol)
    | _ => none
  | _ => none

def Stack.streamRoom (s : Stack) (a : Addr) : Bool :=
  (s.stream? a).all (fun st => decide (st.sndItems.length < ringSize - 1))

def Stack.hostRoom (s : Stack) (a : Addr) : Bool :=
  (s.lhost.get? a).all (fun host => decide (host.sndItems.length < ringSize - 1))

/--
The ring has room on which the turn puts the data of the stream at `a`.
-/
def PktSys.fragmentRoom (sys : PktSys) (a : Addr) : PktSys.Turn → Bool
  | .call _ => sys.stack.streamRoom a
  | .pktProcess env _ =>
    if (sys.stack.stream? a).any (fun st => (ngGetDstMacaddr sys.stack.arpt st.sip).isSome) then
      env.outRoom a
    else
      sys.stack.streamRoom a

/--
The ring has room on which the turn puts the datagram of the socket at `a`.
-/
def PktSys.datagramRoom (sys : PktSys) (a : Addr) (ol : Offload) : PktSys.Turn → Bool
  | .call _ => sys.stack.hostRoom a
  | .pktProcess env _ =>
    if (ngGetDstMacaddr sys.stack.arpt ol.dip).isSome then env.outRoom a else sys.stack.hostRoom a

/--
The send buffer or `ring->out` has room for what the turn puts on it.
-/
def PktSys.hasRoom (sys : PktSys) (t : PktSys.Turn) : Bool :=
  (sys.nextFragment t).all (fun (a, _) => sys.fragmentRoom a t)
    && (sys.nextDatagram t).all (fun (a, ol) => sys.datagramRoom a ol t)

def dataLost (a : Addr) (e : PktStep) : List NgTcpFragment :=
  match e.pre.nextFragment e.act with
  | some (b, f) => if b = a ∧ e.pre.fragmentRoom b e.act = false then [f] else []
  | none => []

def datagramsLost (a : Addr) (e : PktStep) : List Offload :=
  match e.pre.nextDatagram e.act with
  | some (b, ol) => if b = a ∧ e.pre.datagramRoom b ol e.act = false then [ol] else []
  | none => []

theorem ret_of_call {e : PktStep} {act : Act} {hc : act.isCall = true} {x : Except Halt (Int × Stack)}
    (hact : e.act = .call ⟨act, hc⟩) (hstep : pktMachine.step e.pre e.act = .ok (e.post, e.out))
    (hx : machine.step e.pre.stack act = x.map Out.ofRet)
    : ∃ r, x = .ok (r, e.post.stack) ∧ e.out.ret = r := by
  rw [hact] at hstep
  rcases map_eq_ok hstep with ⟨⟨stack, out⟩, hcall, hpost⟩
  rcases map_eq_ok (hx.symm.trans hcall) with ⟨⟨r, stack'⟩, hret, hout⟩
  rw [Out.ofRet, Prod.mk.injEq] at hout
  rw [Prod.mk.injEq, ← hout.1, ← hout.2] at hpost
  exact ⟨r, by rw [hret, ← hpost.1], by rw [← hpost.2]⟩

section Data

variable {sys sys' : PktSys} {a : Addr} {e : PktStep}

theorem nsendAccepted_eq_nil (h : ∀ env fd buf hc, e.act ≠ .call ⟨.nsend env fd buf, hc⟩)
    : nsendAccepted a e = [] := by
  unfold nsendAccepted
  split
  . next hact => exact absurd hact (h _ _ _ _)
  . rfl

theorem carriesData_iff {f : NgTcpFragment} : carriesData f = true ↔ (0 : Int) < f.length.toNat := by
  rw [carriesData, bne_iff_ne, ne_eq, ← UInt32.toNat_inj]
  change ¬f.length.toNat = 0 ↔ _
  omega

theorem nextFragment_of_call {c : Call} (h : ∀ env fd buf, c.1 ≠ .nsend env fd buf)
    : sys.nextFragment (.call c) = none := by
  unfold PktSys.nextFragment
  split
  . next heq =>
    cases heq
    exact absurd rfl (h _ _ _)
  . contradiction
  . rfl

theorem nextFragment_of_pass {env : Env} {ring : List Mbuf} (h : ∀ b f l, sys.pc ≠ .tcpSend b f l)
    : sys.nextFragment (.pktProcess env ring) = none := by
  unfold PktSys.nextFragment
  dsimp only
  split
  . next hpc => exact absurd hpc (h _ _ _)
  . rfl

theorem dataLost_eq_nil (h : e.pre.nextFragment e.act = none) : dataLost a e = [] := by
  rw [dataLost, h]

theorem dataLost_append_enqueued {b : Addr} {st : NgTcpStream} {f : NgTcpFragment}
    (hst : e.pre.stack.stream? b = some st)
    (hput : e.pre.nextFragment e.act = if carriesData f then some (b, f) else none)
    (hring : e.pre.fragmentRoom b e.act = e.pre.stack.streamRoom b)
    : dataLost b e ++ (enqueued st.sndItems.length f).filter carriesData = [f].filter carriesData := by
  have hroom : e.pre.fragmentRoom b e.act = decide (st.sndItems.length < ringSize - 1) := by
    rw [hring, Stack.streamRoom, hst]
    rfl
  rw [dataLost, hput]
  unfold enqueued
  cases hdata : carriesData f with
  | false =>
    rw [if_neg (by decide)]
    dsimp only
    split <;> simp [hdata]
  | true =>
    rw [if_pos rfl]
    dsimp only
    by_cases hlt : st.sndItems.length < ringSize - 1
    . rw [hroom, if_pos hlt, if_neg (by simp [hlt])]
      rfl
    . rw [hroom, if_neg hlt, if_pos (by simp [hlt])]
      simp [hdata]

/-- A frame with data is on `ring->out`, or its data is lost. -/
theorem dataFramed_append_lost {b : Addr} {f : NgTcpFragment} {frame : TcpFrame}
    (hframes : e.out.tcpFrames = [frame]) (hframe : frame.stream = b ∧ frame.fragment = f)
    (hput : e.pre.nextFragment e.act = if carriesData f then some (b, f) else none)
    (hsent : frame.sent = e.pre.fragmentRoom b e.act)
    : dataFramed b e ++ dataLost b e = [f].filter carriesData := by
  rw [dataFramed, dataLost, hframes, hput]
  cases hdata : carriesData f <;> cases hroom : frame.sent <;>
    simp [framesOf, hframe, hdata, hroom, ← hsent]

theorem dataFramed_of_ne {b : Addr} {frame : TcpFrame} (hframes : e.out.tcpFrames = [frame])
    (hframe : frame.stream = b) (hne : b ≠ a) : dataFramed a e = [] := by
  rw [dataFramed, hframes]
  cases hroom : frame.sent <;> simp [framesOf, hframe, hne, hroom]

theorem dataLost_of_ne {b : Addr} {f : NgTcpFragment} (hne : b ≠ a)
    (hput : e.pre.nextFragment e.act = if carriesData f then some (b, f) else none)
    : dataLost a e = [] := by
  rw [dataLost, hput]
  cases carriesData f <;> simp [hne]

theorem StreamStep.dataOf_eq {s : Stack} {act : Act} {frames : List NgTcpFragment}
    {st st' : Option NgTcpStream} (h : StreamStep s a act frames st st')
    (hsend : ∀ env fd buf, act ≠ .nsend env fd buf) (hout : ∀ env, act ≠ .ngTcpOut env)
    : dataOf st = (if st'.isNone then dataOf st else []) ++ dataOf st' := by
  -- A FIN and the acknowledgements have no data.
  have happend {st st' : NgTcpStream} {fs : List NgTcpFragment}
      (hitems : st'.sndItems = st.sndItems ++ fs) (hfs : ∀ f ∈ fs, f.length = 0)
      : dataOf (some st) = [] ++ dataOf (some st') := by
    have hnone : fs.filter carriesData = [] := by
      rw [List.filter_eq_nil_iff]
      intro f hf
      simp [carriesData, hfs f hf]
    simp [dataOf, hitems, hnone]
  cases h with
  | same st =>
    cases st with
    | none => rfl
    | some st => simp
  | opened _ _ _ _ hsnd => simp [dataOf, hsnd]
  | halfOpen _ hcreate => simp [dataOf, hcreate.sndItems]
  | synAck _ _ hsnd => simp [dataOf, NgTcpStream.sndItems, hsnd, carriesData, synAckFragment]
  | bound | listened | accepted | read | handshake => rfl
  | sent hact => exact absurd hact (hsend _ _ _)
  | @fin env fd st sndbuf _ _ _ _ _ _ hsnd =>
    have hitems : NgTcpStream.sndItems { st with sndbuf := some sndbuf, status := .lastAck }
        = st.sndItems ++ enqueued st.sndItems.length (st.finFragment env.staleFragment) := hsnd
    apply happend hitems
    intro f hf
    unfold enqueued at hf
    split at hf
    . rw [List.mem_singleton.mp hf]
      rfl
    . contradiction
  | removed | lastAck => simp [dataOf]
  | segment _ _ _ _ h =>
    rcases h.acks with ⟨acks, hitems, _, hacks⟩
    apply happend hitems
    intro f hf
    rcases hacks f hf with ⟨st1, rfl⟩
    rfl
  | out hact => exact absurd hact (hout _)

/--
What one step does to the data of the stream at `a`: what is added to the send buffer has been accepted.
-/
structure DataStep (a : Addr) (e : PktStep) (new : List NgTcpFragment) : Prop where
  accepted : nsendAccepted a e = dataLost a e ++ new
  queued : dataQueued a e.post = dataQueued a e.pre ++ new
  there : (e.post.stack.stream? a).isNone = (e.pre.stack.stream? a).isNone

theorem dataStep_of_enqueue {env : Env} {fd : Int} {buf : List UInt8} {b : Addr} {st : NgTcpStream}
    {ring : RteRing NgTcpFragment} {hc : (Act.nsend env fd buf).isCall = true}
    (hact : e.act = .call ⟨.nsend env fd buf, hc⟩)
    (hinfo : getHostinfoFromfd e.pre.stack fd = some (.stream b st)) (hsnd : st.sndbuf = some ring)
    (hput : e.pre.nextFragment e.act
      = if carriesData (st.sndFragment buf) then some (b, st.sndFragment buf) else none)
    (hret : e.out.ret = (st.sndFragment buf).length.toNat)
    (hstack : e.post.stack = e.pre.stack.modifyStream b (fun stream =>
      { stream with sndbuf := some (rteRingMpEnqueue ring (st.sndFragment buf)) })) (a : Addr)
    : ∃ new, DataStep a e new := by
  have hst := (getHostinfoFromfd_stream hinfo).1
  have hitems : (rteRingMpEnqueue ring (st.sndFragment buf)).items
      = st.sndItems ++ enqueued st.sndItems.length (st.sndFragment buf) := by
    rw [items_enqueue, NgTcpStream.sndItems, hsnd]
    rfl
  by_cases heq : b = a
  . subst heq
    refine ⟨(enqueued st.sndItems.length (st.sndFragment buf)).filter carriesData, ?_, ?_, ?_⟩
    . rw [dataLost_append_enqueued hst hput (by rw [hact]; rfl), nsendAccepted, hact]
      dsimp only
      rw [hinfo, hret]
      simp only [← carriesData_iff, true_and]
      cases hdata : carriesData (st.sndFragment buf) <;> simp [hdata]
    . rw [dataQueued, dataQueued, hstack, stream?_modifyStream_self, hst]
      simp [dataOf, NgTcpStream.sndItems, hitems]
    . rw [hstack, stream?_modifyStream_self, Option.isNone_map]
  . refine ⟨[], ?_, ?_, ?_⟩
    . rw [dataLost_of_ne heq hput, nsendAccepted, hact]
      dsimp only
      rw [hinfo]
      simp [heq]
    . rw [dataQueued, dataQueued, hstack, stream?_modifyStream, if_neg (Ne.symm heq), List.append_nil]
    . rw [hstack, stream?_modifyStream, if_neg (Ne.symm heq)]

/-- `nsend` puts what it accepts on the send buffer if that has room. -/
theorem dataStep_of_nsend {env : Env} {fd r : Int} {buf : List UInt8}
    {hc : (Act.nsend env fd buf).isCall = true} (hact : e.act = .call ⟨.nsend env fd buf, hc⟩)
    (h : nsend env e.pre.stack fd buf = .ok (r, e.post.stack)) (hret : e.out.ret = r) (a : Addr)
    : ∃ new, DataStep a e new := by
  -- A call that stops early accepts nothing and puts nothing.
  have hsame (hput : e.pre.nextFragment (.call ⟨.nsend env fd buf, hc⟩) = none) (hr : r ≤ 0)
      (hstack : e.pre.stack = e.post.stack) : ∃ new, DataStep a e new := by
    refine ⟨[], ?_, ?_, ?_⟩
    . rw [dataLost, hact, hput, nsendAccepted, hact]
      dsimp only
      split
      . rw [if_neg (by omega)]
        rfl
      . rfl
    . rw [dataQueued, dataQueued, hstack, List.append_nil]
    . rw [hstack]
  unfold nsend at h
  cases hinfo : getHostinfoFromfd e.pre.stack fd with
  | none =>
    rw [hinfo, Except.ok.injEq, Prod.mk.injEq] at h
    exact hsame (by simp [PktSys.nextFragment, hinfo]) (by omega) h.2
  | some info =>
    rw [hinfo] at h
    dsimp only at h
    by_cases hproto : info.protocol = ipprotoTcp
    . rw [if_pos hproto] at h
      cases info with
      | host | ep => contradiction
      | stream b st =>
        have hproto : st.protocol = ipprotoTcp := hproto
        dsimp only [Hostinfo.asStream] at h
        cases hmalloc0 : env.rteMalloc 0 with
        | false =>
          rw [hmalloc0, Bool.not_false, if_pos rfl, Except.ok.injEq, Prod.mk.injEq] at h
          exact hsame (by simp [PktSys.nextFragment, hinfo, hmalloc0]) (by omega) h.2
        | true =>
          rw [hmalloc0, Bool.not_true, if_neg (by decide)] at h
          cases hmalloc1 : env.rteMalloc 1 with
          | false =>
            rw [hmalloc1, Bool.not_false, if_pos rfl, Except.ok.injEq, Prod.mk.injEq] at h
            exact hsame (by simp [PktSys.nextFragment, hinfo, hmalloc1]) (by omega) h.2
          | true =>
            rw [hmalloc1, Bool.not_true, if_neg (by decide)] at h
            cases hsnd : st.sndbuf with
            | none =>
              rw [hsnd] at h
              contradiction
            | some ring =>
              rw [hsnd, Except.ok.injEq, Prod.mk.injEq] at h
              have hput : e.pre.nextFragment e.act
                  = if carriesData (st.sndFragment buf) then some (b, st.sndFragment buf) else none := by
                simp [hact, PktSys.nextFragment, hinfo, hproto, hmalloc0, hmalloc1]
              exact dataStep_of_enqueue hact hinfo hsnd hput (hret.trans h.1.symm) h.2.symm a
    . rw [if_neg hproto, Except.ok.injEq, Prod.mk.injEq] at h
      refine hsame ?_ (by omega) h.2
      cases info with
      | host | ep => simp [PktSys.nextFragment, hinfo]
      | stream b st =>
        have hproto : st.protocol ≠ ipprotoTcp := hproto
        simp [PktSys.nextFragment, hinfo, hproto]

theorem dataFlow_of_acted {act : Act} (hstep : machine.step e.pre.stack act = .ok (e.post.stack, e.out))
    (hsend : ∀ env fd buf, act ≠ .nsend env fd buf) (hout : ∀ env, act ≠ .ngTcpOut env) (a : Addr)
    : dataQueued a e.pre = dataClosed a e ++ dataQueued a e.post :=
  (streamStep_of_step hstep a).dataOf_eq hsend hout

/--
What goes in at a step, and where it and what was there are afterwards.
-/
def DataFlow (a : Addr) (e : PktStep) : Prop :=
  (dataHeld a e.pre ++ dataQueued a e.pre ++ nsendAccepted a e).Perm
    (dataFramed a e ++ dataClosed a e ++ dataLost a e ++ (dataHeld a e.post ++ dataQueued a e.post))

theorem pc_of_inFlight {pc : PktPc} {b : Addr} {f : NgTcpFragment}
    (h : ∀ a, pc.inFlight a = if b = a then [f] else []) : ∃ l, pc = .tcpSend b f l := by
  have hb := h b
  rw [if_pos rfl] at hb
  cases pc with
  | tcpSend c g l =>
    rw [PktPc.inFlight] at hb
    split at hb
    . next heq =>
      cases hb
      exact ⟨l, by rw [heq]⟩
    . contradiction
  | _ => contradiction

theorem nsendAccepted_of_pass (hturn : ∃ env ring, e.act = .pktProcess env ring) : nsendAccepted a e = [] := by
  rcases hturn with ⟨env, ring, hact⟩
  exact nsendAccepted_eq_nil (by simp [hact])

theorem dataLost_of_idle (hturn : ∃ env ring, e.act = .pktProcess env ring)
    (hpc : ∀ a, e.pre.pc.inFlight a = []) : dataLost a e = [] := by
  rcases hturn with ⟨env, ring, hact⟩
  apply dataLost_eq_nil
  rw [hact]
  apply nextFragment_of_pass
  intro b f l heq
  have := hpc b
  rw [heq, PktPc.inFlight, if_pos rfl] at this
  contradiction

theorem dataQueued_of_modify_ne {b : Addr} {f : NgTcpStream → NgTcpStream} (hne : b ≠ a)
    (hstack : e.post.stack = e.pre.stack.modifyStream b f)
    : dataClosed a e ++ dataQueued a e.post = dataQueued a e.pre := by
  rw [dataClosed, dataQueued, dataQueued, hstack, stream?_modifyStream, if_neg (Ne.symm hne)]
  cases e.pre.stack.stream? a <;> rfl

theorem dataQueued_of_stream {sys : PktSys} {st : NgTcpStream} (hst : sys.stack.stream? a = some st)
    : dataQueued a sys = st.sndItems.filter carriesData := by
  rw [dataQueued, hst]
  rfl

theorem dataQueued_of_modify {st st' : NgTcpStream} (hst : e.pre.stack.stream? a = some st)
    (hstack : e.post.stack = e.pre.stack.modifyStream a (fun _ => st'))
    : dataClosed a e = [] ∧ dataQueued a e.post = st'.sndItems.filter carriesData := by
  rw [dataClosed, dataQueued, dataQueued, hstack, stream?_modifyStream_self, hst]
  exact ⟨rfl, rfl⟩

/-- What `nsend` accepts is on the send buffer or lost. -/
theorem dataFlow_of_nsend {env : Env} {fd : Int} {buf : List UInt8} {hc : (Act.nsend env fd buf).isCall = true}
    (hstep : pktMachine.step e.pre e.act = .ok (e.post, e.out))
    (hact : e.act = .call ⟨.nsend env fd buf, hc⟩) (hheld : dataHeld a e.post = dataHeld a e.pre)
    (hframed : dataFramed a e = []) : DataFlow a e := by
  rcases ret_of_call hact hstep rfl with ⟨r, hcall, hret⟩
  rcases dataStep_of_nsend hact hcall hret a with ⟨new, haccepted, hqueued, hthere⟩
  have hclosed : dataClosed a e = [] := by
    rw [dataClosed, hthere, dataQueued]
    cases e.pre.stack.stream? a <;> rfl
  rw [DataFlow, hheld, hframed, haccepted, hqueued, hclosed]
  rw [List.append_assoc, List.append_assoc, List.nil_append, List.nil_append]
  refine (List.perm_append_comm_assoc _ _ _).append_left _ |>.trans ?_
  exact List.perm_append_comm_assoc _ _ _

theorem dataFlow_of_step (hstep : pktMachine.step e.pre e.act = .ok (e.post, e.out)) (a : Addr)
    : DataFlow a e := by
  cases streamsStep_of_step hstep with
  | @acted act h hact hframes hpc hturn =>
    have hheld : dataHeld a e.post = dataHeld a e.pre := by
      rw [dataHeld, hpc, dataHeld]
    have hframed : dataFramed a e = [] := by
      rw [dataFramed, hframes]
      rfl
    by_cases hsend : ∃ env fd buf, act = .nsend env fd buf
    . rcases hsend with ⟨env, fd, buf, rfl⟩
      rcases hturn with ⟨⟨act, hc⟩, hturn, hact⟩ | ⟨hcall, _⟩
      . subst hact
        exact dataFlow_of_nsend hstep hturn hheld hframed
      . contradiction
    . have hsend' : ∀ env fd buf, act ≠ .nsend env fd buf := by
        intro env fd buf heq
        exact hsend ⟨env, fd, buf, heq⟩
      have haccepted : nsendAccepted a e = [] := by
        rcases hturn with ⟨c, hturn, rfl⟩ | ⟨_, hturn, _⟩
        . apply nsendAccepted_eq_nil
          intro env fd buf hc heq
          rw [hturn] at heq
          cases heq
          exact hsend' _ _ _ rfl
        . exact nsendAccepted_of_pass hturn
      have hlost : dataLost a e = [] := by
        rcases hturn with ⟨c, hturn, rfl⟩ | ⟨_, hturn, hpc⟩
        . apply dataLost_eq_nil
          rw [hturn]
          exact nextFragment_of_call hsend'
        . exact dataLost_of_idle hturn hpc
      rw [DataFlow, hheld, hframed, dataFlow_of_acted h hsend' hact a, haccepted, hlost]
      rw [List.append_nil, List.append_nil, List.nil_append, ← List.append_assoc, ← List.append_assoc]
      exact List.perm_append_comm.append_right _
  | apart htable hframes hpc hturn =>
    have hst := stream?_congr htable a
    rw [DataFlow, nsendAccepted_of_pass hturn, dataLost_of_idle hturn (fun a => (hpc a).1), dataHeld, dataHeld,
      (hpc a).1, (hpc a).2, dataFramed, hframes, dataClosed, dataQueued, dataQueued, hst]
    cases e.pre.stack.stream? a <;> simp [framesOf, dataOf]
  | @taken b st f sndbuf hst hsnd hstack hframes hpc hpc' hturn =>
    rw [DataFlow, nsendAccepted_of_pass hturn, dataLost_of_idle hturn hpc, dataHeld, dataHeld, hpc, hpc',
      dataFramed, hframes]
    by_cases heq : b = a
    . subst heq
      rcases dataQueued_of_modify hst hstack with ⟨hclosed, hqueued⟩
      rw [hclosed, hqueued, dataQueued_of_stream hst, hsnd, if_pos rfl, ← List.singleton_append,
        List.filter_append]
      simp [framesOf, NgTcpStream.sndItems]
    . rw [if_neg heq, ← dataQueued_of_modify_ne heq hstack]
      simp [framesOf]
  | @sent b st f frame hst hmac hstack hframes hframe hpc hpc' hturn =>
    rcases pc_of_inFlight hpc with ⟨l, hl⟩
    rcases hturn with ⟨env, ring, hact, hsent⟩
    have hput : e.pre.nextFragment e.act = if carriesData f then some (b, f) else none := by
      rw [hact, PktSys.nextFragment, hl]
    have hroom : frame.sent = e.pre.fragmentRoom b e.act := by
      rw [hact, PktSys.fragmentRoom, hst, Option.any_some, if_pos hmac, hsent]
    rw [DataFlow, nsendAccepted_of_pass ⟨env, ring, hact⟩, dataHeld, dataHeld, hpc, hpc']
    by_cases heq : b = a
    . subst heq
      rcases dataQueued_of_modify hst hstack with ⟨hclosed, hqueued⟩
      rw [hclosed, hqueued, dataQueued_of_stream hst, if_pos rfl, List.append_nil, List.append_nil,
        dataFramed_append_lost hframes hframe hput hroom]
      exact .refl _
    . rw [if_neg heq, ← dataQueued_of_modify_ne heq hstack, dataFramed_of_ne hframes hframe.1 heq,
        dataLost_of_ne heq hput]
      simp
  -- The fragment goes back to the end of the send buffer, which may have been filled in the meantime.
  | @requeued b st f sndbuf hst hmiss hsnd hstack hframes hpc hpc' hturn =>
    rcases pc_of_inFlight hpc with ⟨l, hl⟩
    have hput : e.pre.nextFragment e.act = if carriesData f then some (b, f) else none := by
      rcases hturn with ⟨env, ring, hact⟩
      rw [hact, PktSys.nextFragment, hl]
    have hring : e.pre.fragmentRoom b e.act = e.pre.stack.streamRoom b := by
      rcases hturn with ⟨env, ring, hact⟩
      rw [hact, PktSys.fragmentRoom, hst, Option.any_some, hmiss]
      rfl
    rw [DataFlow, nsendAccepted_of_pass hturn, dataHeld, dataHeld, hpc, hpc', dataFramed, hframes]
    by_cases heq : b = a
    . subst heq
      rcases dataQueued_of_modify hst hstack with ⟨hclosed, hqueued⟩
      have hitems : NgTcpStream.sndItems { st with sndbuf := some sndbuf }
          = st.sndItems ++ enqueued st.sndItems.length f := hsnd
      rw [hclosed, hqueued, dataQueued_of_stream hst, if_pos rfl, hitems, List.filter_append,
        ← dataLost_append_enqueued hst hput hring, List.append_nil, List.append_assoc]
      exact List.perm_append_comm.append_left _
    . rw [if_neg heq, ← dataQueued_of_modify_ne heq hstack, dataLost_of_ne heq hput]
      simp [framesOf]

theorem dataQueued_of_accepted (hstep : pktMachine.step e.pre e.act = .ok (e.post, e.out))
    (hlost : dataLost a e = []) (h : nsendAccepted a e ≠ [])
    : dataQueued a e.post = dataQueued a e.pre ++ nsendAccepted a e := by
  by_cases hsend : ∃ env fd buf hc, e.act = .call ⟨.nsend env fd buf, hc⟩
  . rcases hsend with ⟨env, fd, buf, hc, hact⟩
    rcases ret_of_call hact hstep rfl with ⟨r, hcall, hret⟩
    rcases dataStep_of_nsend hact hcall hret a with ⟨new, haccepted, hqueued, _⟩
    rw [hlost, List.nil_append] at haccepted
    rw [hqueued, haccepted]
  . apply absurd (nsendAccepted_eq_nil ?_) h
    intro env fd buf hc hact
    exact hsend ⟨env, fd, buf, hc, hact⟩

end Data

section Datagrams

variable {sys : PktSys} {a : Addr} {e : PktStep}

theorem nsendtoAccepted_eq_nil
    (h : ∀ env fd buf sinPort sAddr hc, e.act ≠ .call ⟨.nsendto env fd buf sinPort sAddr, hc⟩)
    : nsendtoAccepted a e = [] := by
  unfold nsendtoAccepted
  split
  . next hact => exact absurd hact (h _ _ _ _ _ _)
  . rfl

theorem nextDatagram_of_call {c : Call} (h : ∀ env fd buf sinPort sAddr, c.1 ≠ .nsendto env fd buf sinPort sAddr)
    : sys.nextDatagram (.call c) = none := by
  unfold PktSys.nextDatagram
  split
  . next heq =>
    cases heq
    exact absurd rfl (h _ _ _ _ _)
  . contradiction
  . rfl

theorem nextDatagram_of_pass {env : Env} {ring : List Mbuf} (h : ∀ b ol l, sys.pc ≠ .udpSend b ol l)
    : sys.nextDatagram (.pktProcess env ring) = none := by
  unfold PktSys.nextDatagram
  dsimp only
  split
  . next hpc => exact absurd hpc (h _ _ _)
  . rfl

theorem datagramsLost_eq_nil (h : e.pre.nextDatagram e.act = none) : datagramsLost a e = [] := by
  rw [datagramsLost, h]

theorem datagramsLost_append {b : Addr} {host : Localhost} {ol : Offload}
    (hhost : e.pre.stack.lhost.get? b = some host) (hput : e.pre.nextDatagram e.act = some (b, ol))
    (hring : e.pre.datagramRoom b ol e.act = e.pre.stack.hostRoom b)
    : datagramsLost b e ++ (if host.sndItems.length < ringSize - 1 then [ol] else []) = [ol] := by
  have hroom : e.pre.datagramRoom b ol e.act = decide (host.sndItems.length < ringSize - 1) := by
    rw [hring, Stack.hostRoom, hhost]
    rfl
  rw [datagramsLost, hput]
  dsimp only
  by_cases hlt : host.sndItems.length < ringSize - 1
  . rw [hroom, if_pos hlt, if_neg (by simp [hlt])]
    rfl
  . rw [hroom, if_neg hlt, if_pos (by simp [hlt])]
    rfl

/-- A frame is on `ring->out`, or its datagram is lost. -/
theorem datagramsFramed_append_lost {b : Addr} {ol : Offload} {srcmac dstmac : MacAddr} {sent : Bool}
    (hframes : e.out.udpFrames = [{ host := b, srcmac, dstmac, ol, sent }])
    (hput : e.pre.nextDatagram e.act = some (b, ol)) (hsent : sent = e.pre.datagramRoom b ol e.act)
    : datagramsFramed b e ++ datagramsLost b e = [ol] := by
  rw [datagramsFramed, datagramsLost, hframes, hput]
  cases sent <;> simp [← hsent]

theorem datagramsLost_of_ne {b : Addr} {ol : Offload} (hne : b ≠ a)
    (hput : e.pre.nextDatagram e.act = some (b, ol)) : datagramsLost a e = [] := by
  rw [datagramsLost, hput]
  simp [hne]

theorem HostStep.datagramsOf_eq {s : Stack} {act : Act} {out : Out} {host host' : Option Localhost}
    (h : HostStep s a act out host host')
    (hsend : ∀ env fd buf sinPort sAddr, act ≠ .nsendto env fd buf sinPort sAddr)
    (hout : ∀ env, act ≠ .udpOut env)
    : datagramsOf host = (if host'.isNone then datagramsOf host else []) ++ datagramsOf host' := by
  cases h with
  | same host =>
    cases host with
    | none => rfl
    | some host => simp
  | opened _ _ _ hsnd => simp [datagramsOf, hsnd]
  | bound | stored | received => rfl
  | sent hact => exact absurd hact (hsend _ _ _ _ _)
  | removed => simp [datagramsOf]
  | out hact => exact absurd hact (hout _)

/--
What one step does to the datagrams of the socket at `a`: what is added to the send buffer has been accepted.
-/
structure DatagramStep (a : Addr) (e : PktStep) (new : List Offload) : Prop where
  accepted : nsendtoAccepted a e = datagramsLost a e ++ new
  queued : datagramsQueued a e.post = datagramsQueued a e.pre ++ new
  there : (e.post.stack.lhost.get? a).isNone = (e.pre.stack.lhost.get? a).isNone

theorem datagramStep_of_enqueue {env : Env} {fd : Int} {buf : List UInt8} {sinPort : UInt16} {sAddr : UInt32}
    {b : Addr} {host : Localhost} {ring : RteRing Offload}
    {hc : (Act.nsendto env fd buf sinPort sAddr).isCall = true}
    (hact : e.act = .call ⟨.nsendto env fd buf sinPort sAddr, hc⟩)
    (hinfo : getHostinfoFromfd e.pre.stack fd = some (.host b host)) (hsnd : host.sndbuf = some ring)
    (hput : e.pre.nextDatagram e.act = some (b, host.sndOffload buf sinPort sAddr)) (hret : 0 < e.out.ret)
    (hstack : e.post.stack = { e.pre.stack with lhost := e.pre.stack.lhost.modify b (fun old =>
      { old with sndbuf := some (rteRingMpEnqueue ring (host.sndOffload buf sinPort sAddr)) }) }) (a : Addr)
    : ∃ new, DatagramStep a e new := by
  have hhost := (getHostinfoFromfd_host hinfo).1
  have hitems : (rteRingMpEnqueue ring (host.sndOffload buf sinPort sAddr)).items = host.sndItems
      ++ if host.sndItems.length < ringSize - 1 then [host.sndOffload buf sinPort sAddr] else [] := by
    rw [items_rteRingMpEnqueue, Localhost.sndItems, hsnd]
    rfl
  by_cases heq : b = a
  . subst heq
    refine ⟨if host.sndItems.length < ringSize - 1 then [host.sndOffload buf sinPort sAddr] else [],
      ?_, ?_, ?_⟩
    . rw [datagramsLost_append hhost hput (by rw [hact]; rfl), nsendtoAccepted, hact]
      dsimp only
      rw [hinfo]
      simp [hret]
    . rw [datagramsQueued, datagramsQueued, hstack]
      dsimp only
      rw [ObjList.get?_modify_self, hhost]
      simp [datagramsOf, Localhost.sndItems, hitems]
    . rw [hstack]
      dsimp only
      rw [ObjList.get?_modify_self, Option.isNone_map]
  . refine ⟨[], ?_, ?_, ?_⟩
    . rw [datagramsLost_of_ne heq hput, nsendtoAccepted, hact]
      dsimp only
      rw [hinfo]
      simp [heq]
    . rw [datagramsQueued, datagramsQueued, hstack]
      dsimp only
      rw [ObjList.get?_modify, if_neg (Ne.symm heq), List.append_nil]
    . rw [hstack]
      dsimp only
      rw [ObjList.get?_modify, if_neg (Ne.symm heq)]

/-- `nsendto` puts what it accepts on the send buffer if that has room. -/
theorem datagramStep_of_nsendto {env : Env} {fd r : Int} {buf : List UInt8} {sinPort : UInt16}
    {sAddr : UInt32} {hc : (Act.nsendto env fd buf sinPort sAddr).isCall = true}
    (hact : e.act = .call ⟨.nsendto env fd buf sinPort sAddr, hc⟩)
    (h : nsendto env e.pre.stack fd buf sinPort sAddr = .ok (r, e.post.stack)) (hret : e.out.ret = r)
    (a : Addr) : ∃ new, DatagramStep a e new := by
  -- A call that stops early accepts nothing and puts nothing.
  have hsame (hput : e.pre.nextDatagram e.act = none) (hr : r ≤ 0)
      (hstack : e.pre.stack = e.post.stack) : ∃ new, DatagramStep a e new := by
    refine ⟨[], ?_, ?_, ?_⟩
    . rw [datagramsLost_eq_nil hput, nsendtoAccepted, hact]
      dsimp only
      split
      . rw [if_neg (by omega)]
        rfl
      . rfl
    . rw [datagramsQueued, datagramsQueued, hstack, List.append_nil]
    . rw [hstack]
  unfold nsendto at h
  cases hinfo : getHostinfoFromfd e.pre.stack fd with
  | none =>
    rw [hinfo, Except.ok.injEq, Prod.mk.injEq] at h
    exact hsame (by simp [hact, PktSys.nextDatagram, hinfo]) (by omega) h.2
  | some info =>
    rw [hinfo] at h
    cases info with
    | stream | ep => contradiction
    | host b host =>
      dsimp only [Hostinfo.asHost] at h
      cases hmalloc0 : env.rteMalloc 0 with
      | false =>
        rw [hmalloc0, Bool.not_false, if_pos rfl, Except.ok.injEq, Prod.mk.injEq] at h
        exact hsame (by simp [hact, PktSys.nextDatagram, hinfo, hmalloc0]) (by omega) h.2
      | true =>
        rw [hmalloc0, Bool.not_true, if_neg (by decide)] at h
        cases hdata : env.rteMalloc 1 && decide (0 < buf.length) with
        | false =>
          rw [hdata, Bool.not_false, if_pos rfl, Except.ok.injEq, Prod.mk.injEq] at h
          refine hsame ?_ (by omega) h.2
          rw [hact, PktSys.nextDatagram, hinfo]
          dsimp only
          rw [hmalloc0, hdata]
          rfl
        | true =>
          rw [hdata, Bool.not_true, if_neg (by decide)] at h
          cases hsnd : host.sndbuf with
          | none =>
            rw [hsnd] at h
            contradiction
          | some ring =>
            rw [hsnd, Except.ok.injEq, Prod.mk.injEq] at h
            have hput : e.pre.nextDatagram e.act = some (b, host.sndOffload buf sinPort sAddr) := by
              rw [hact, PktSys.nextDatagram, hinfo]
              dsimp only
              rw [hmalloc0, hdata]
              rfl
            have hpos : 0 < e.out.ret := by
              rw [Bool.and_eq_true, decide_eq_true_iff] at hdata
              omega
            exact datagramStep_of_enqueue hact hinfo hsnd hput hpos h.2.symm a

/--
What goes in at a step, and where it and what was there are afterwards.
-/
def DatagramFlow (a : Addr) (e : PktStep) : Prop :=
  (datagramsHeld a e.pre ++ datagramsQueued a e.pre ++ nsendtoAccepted a e).Perm
    (datagramsFramed a e ++ datagramsClosed a e ++ datagramsLost a e
      ++ (datagramsHeld a e.post ++ datagramsQueued a e.post))

theorem datagramFlow_of_acted {act : Act}
    (h : machine.step e.pre.stack act = .ok (e.post.stack, e.out))
    (hsend : ∀ env fd buf sinPort sAddr, act ≠ .nsendto env fd buf sinPort sAddr)
    (hout : ∀ env, act ≠ .udpOut env) (hput : e.pre.nextDatagram e.act = none)
    (haccepted : nsendtoAccepted a e = []) (hframes : e.out.udpFrames = [])
    (hheld : datagramsHeld a e.post = datagramsHeld a e.pre) : DatagramFlow a e := by
  have hqueued : datagramsQueued a e.pre = datagramsClosed a e ++ datagramsQueued a e.post :=
    (hostStep_of_step h a).datagramsOf_eq hsend hout
  unfold DatagramFlow
  rw [hqueued, haccepted, datagramsLost_eq_nil hput, hheld, datagramsFramed, hframes]
  rw [List.append_nil, List.append_nil, List.filter_nil, List.map_nil, List.nil_append, ← List.append_assoc,
    ← List.append_assoc]
  exact List.perm_append_comm.append_right _

theorem datagramFlow_of_apart {env : Env} {ring : List Mbuf} (hact : e.act = .pktProcess env ring)
    (hlhost : e.post.stack.lhost = e.pre.stack.lhost) (hframes : e.out.udpFrames = [])
    (hpc : ∀ b ol l, e.pre.pc ≠ .udpSend b ol l) (hheld : datagramsHeld a e.pre = [])
    (hheld' : datagramsHeld a e.post = []) : DatagramFlow a e := by
  have haccepted : nsendtoAccepted a e = [] := nsendtoAccepted_eq_nil (by simp [hact])
  have hlost : datagramsLost a e = [] := by
    apply datagramsLost_eq_nil
    rw [hact]
    exact nextDatagram_of_pass hpc
  unfold DatagramFlow
  rw [haccepted, hlost, hheld, hheld', datagramsFramed, hframes, datagramsClosed, datagramsQueued,
    datagramsQueued, hlhost]
  cases e.pre.stack.lhost.get? a <;> simp [datagramsOf]

theorem datagramFlow_of_call {c : Call} {stack : Stack} {out : Out}
    (h : machine.step sys.stack c.1 = .ok (stack, out)) (a : Addr)
    : DatagramFlow a ⟨sys, .call c, out, { sys with stack }⟩ := by
  by_cases hsend : ∃ env fd buf sinPort sAddr, c.1 = .nsendto env fd buf sinPort sAddr
  . rcases hsend with ⟨env, fd, buf, sinPort, sAddr, hact⟩
    rcases c with ⟨act, hc⟩
    dsimp only at hact h
    subst hact
    rcases map_eq_ok h with ⟨⟨r, stack'⟩, hcall, hout⟩
    cases hout
    rcases datagramStep_of_nsendto (e := ⟨sys, .call ⟨_, hc⟩, { ret := r }, { sys with stack := stack' }⟩)
      rfl hcall rfl a with ⟨new, haccepted, hqueued, hthere⟩
    have hclosed : datagramsClosed a ⟨sys, .call ⟨_, hc⟩, { ret := r }, { sys with stack := stack' }⟩ = [] := by
      rw [datagramsClosed, hthere, datagramsQueued]
      cases sys.stack.lhost.get? a <;> rfl
    unfold DatagramFlow
    rw [haccepted, hqueued, hclosed, List.append_assoc, List.append_assoc]
    change List.Perm _ (([] : List Offload) ++ _)
    rw [List.nil_append]
    exact (List.perm_append_comm_assoc _ _ _).append_left _ |>.trans (List.perm_append_comm_assoc _ _ _)
  . have hsend' : ∀ env fd buf sinPort sAddr, c.1 ≠ .nsendto env fd buf sinPort sAddr := by
      intro env fd buf sinPort sAddr heq
      exact hsend ⟨env, fd, buf, sinPort, sAddr, heq⟩
    have hout : ∀ env, c.1 ≠ .udpOut env := by
      intro env heq
      have := c.2
      rw [heq] at this
      contradiction
    have hframes := (frames_of_act h (.inl c.2)).2.1
    refine datagramFlow_of_acted h hsend' hout (nextDatagram_of_call hsend') ?_ hframes rfl
    apply nsendtoAccepted_eq_nil
    intro env fd buf sinPort sAddr hc heq
    cases heq
    exact hsend' _ _ _ _ _ rfl

theorem datagramFlow_of_pass {env : Env} {ring : List Mbuf} {b : Addr} {host host' : Localhost}
    (hact : e.act = .pktProcess env ring) (hhost : e.pre.stack.lhost.get? b = some host)
    (hlhost : e.post.stack.lhost = e.pre.stack.lhost.modify b (fun _ => host'))
    (hflow : (datagramsHeld b e.pre ++ host.sndItems).Perm
      (datagramsFramed b e ++ datagramsLost b e ++ (datagramsHeld b e.post ++ host'.sndItems)))
    (hothers : ∀ a, b ≠ a → datagramsHeld a e.pre = [] ∧ datagramsFramed a e = [] ∧ datagramsLost a e = []
      ∧ datagramsHeld a e.post = []) (a : Addr) : DatagramFlow a e := by
  unfold DatagramFlow
  rw [nsendtoAccepted_eq_nil (by simp [hact]), datagramsClosed, datagramsQueued, datagramsQueued, hlhost]
  by_cases heq : b = a
  . subst heq
    rw [ObjList.get?_modify_self, hhost]
    simpa [datagramsOf] using hflow
  . rcases hothers a heq with ⟨hpre, hframed, hlost, hpost⟩
    rw [ObjList.get?_modify, if_neg (Ne.symm heq), hpre, hframed, hlost, hpost]
    cases e.pre.stack.lhost.get? a <;> simp [datagramsOf]

theorem datagramFlow_of_step (hstep : pktMachine.step e.pre e.act = .ok (e.post, e.out)) (a : Addr)
    : DatagramFlow a e := by
  have h := pktStepped_of_step hstep
  rcases e with ⟨sys, t, out, sys'⟩
  dsimp only at h
  have hidle {pc : PktPc} (hpc : ∀ b ol l, pc ≠ .udpSend b ol l) (s : Stack) : datagramsHeld a ⟨s, pc⟩ = [] := by
    unfold datagramsHeld
    split
    . next heq => exact absurd heq (hpc _ _ _)
    . rfl
  cases h with
  | called h => exact datagramFlow_of_call h a
  | @went env ring pc hpc hpc' =>
    have hpre : ∀ b ol l, sys.pc ≠ .udpSend b ol l := by
      intro b ol l heq
      rw [heq] at hpc
      contradiction
    have hpost : ∀ b ol l, pc ≠ .udpSend b ol l := by
      rintro b ol l rfl
      contradiction
    exact datagramFlow_of_apart rfl rfl rfl hpre (hidle hpre _) (hidle hpost _)
  | entered hpc h =>
    have hpre : ∀ b ol l, sys.pc ≠ .udpSend b ol l := by
      rw [hpc]
      simp
    have hframes := (frames_of_act h (.inr (.inr (.inr ⟨_, _, _, rfl⟩)))).2.1
    refine datagramFlow_of_acted h (by simp) (by simp) (nextDatagram_of_pass hpre)
      (nsendtoAccepted_eq_nil (by simp)) hframes ?_
    rw [hidle hpre, hidle (by simp)]
  | @processed env ring mbufs m act stack out hpc hact h =>
    have hpre : ∀ b ol l, sys.pc ≠ .udpSend b ol l := by
      rw [hpc]
      simp
    have hacts : (∀ env fd buf sinPort sAddr, act ≠ .nsendto env fd buf sinPort sAddr)
        ∧ (∀ env, act ≠ .udpOut env) ∧ out.udpFrames = [] := by
      rcases hact with rfl | rfl
      . exact ⟨by simp, by simp, (frames_of_act h (.inr (.inl ⟨_, _, rfl⟩))).2.1⟩
      . exact ⟨by simp, by simp, (frames_of_act h (.inr (.inr (.inl ⟨_, _, rfl⟩)))).2.1⟩
    refine datagramFlow_of_acted h hacts.1 hacts.2.1 (nextDatagram_of_pass hpre)
      (nsendtoAccepted_eq_nil (by simp)) hacts.2.2 ?_
    rw [hidle hpre, hidle (by simp)]
  | @udpTaken env ring b hosts host ol sndbuf hpc hhost hsnd =>
    have hpre : ∀ b ol l, sys.pc ≠ .udpSend b ol l := by
      rw [hpc]
      simp
    have hput : sys.nextDatagram (.pktProcess env ring) = none := nextDatagram_of_pass hpre
    refine datagramFlow_of_pass rfl hhost rfl ?_ ?_ a
    . rw [hsnd, datagramsLost_eq_nil hput]
      simp [datagramsHeld, datagramsFramed, Localhost.sndItems, hpc]
    . intro a hne
      rw [datagramsLost_eq_nil hput]
      simp [datagramsHeld, datagramsFramed, hpc, hne]
  | @udpSent env ring b hosts host ol dstmac hpc hhost hmac =>
    have hput : sys.nextDatagram (.pktProcess env ring) = some (b, ol) := by
      rw [PktSys.nextDatagram, hpc]
    have hroom : env.outRoom b = sys.datagramRoom b ol (.pktProcess env ring) := by
      rw [PktSys.datagramRoom, hmac]
      rfl
    refine datagramFlow_of_pass rfl hhost rfl ?_ ?_ a
    . refine .trans ?_ (.append_right _ (.of_eq (datagramsFramed_append_lost rfl hput hroom).symm))
      simp [datagramsHeld, hpc]
    . intro a hne
      rw [datagramsLost_of_ne hne hput]
      simp [datagramsHeld, datagramsFramed, hpc, hne]
  -- The datagram goes back to the end of the send buffer, which may have been filled in the meantime.
  | @udpRequeued env ring b hosts host ol sndbuf hpc hhost hmiss hsnd =>
    have hput : sys.nextDatagram (.pktProcess env ring) = some (b, ol) := by
      rw [PktSys.nextDatagram, hpc]
    have hring : sys.datagramRoom b ol (.pktProcess env ring) = sys.stack.hostRoom b := by
      rw [PktSys.datagramRoom, hmiss]
      rfl
    refine datagramFlow_of_pass rfl hhost rfl ?_ ?_ a
    . have hheld : datagramsHeld b sys = [ol] := by
        rw [datagramsHeld, hpc]
        simp
      have hitems : Localhost.sndItems { host with sndbuf := some sndbuf } = sndbuf.items := rfl
      have hback := datagramsLost_append (e := ⟨sys, .pktProcess env ring, { ret := 0 }, sys⟩) hhost hput hring
      dsimp only
      rw [hheld, hitems, hsnd]
      generalize (if host.sndItems.length < ringSize - 1 then [ol] else []) = back at hback ⊢
      rw [← hback, List.append_assoc]
      exact List.perm_append_comm.append_left _
    . intro a hne
      rw [datagramsLost_of_ne hne hput]
      simp [datagramsHeld, datagramsFramed, hpc, hne]
  | tcpTaken hpc | tcpSent hpc | tcpRequeued hpc =>
    have hpre : ∀ b ol l, sys.pc ≠ .udpSend b ol l := by
      rw [hpc]
      simp
    exact datagramFlow_of_apart rfl rfl rfl hpre (hidle hpre _) (hidle (by simp) _)

theorem datagramsQueued_of_accepted (hstep : pktMachine.step e.pre e.act = .ok (e.post, e.out))
    (hlost : datagramsLost a e = []) (h : nsendtoAccepted a e ≠ [])
    : datagramsQueued a e.post = datagramsQueued a e.pre ++ nsendtoAccepted a e := by
  by_cases hsend : ∃ env fd buf sinPort sAddr hc, e.act = .call ⟨.nsendto env fd buf sinPort sAddr, hc⟩
  . rcases hsend with ⟨env, fd, buf, sinPort, sAddr, hc, hact⟩
    rcases ret_of_call hact hstep rfl with ⟨r, hcall, hret⟩
    rcases datagramStep_of_nsendto hact hcall hret a with ⟨new, haccepted, hqueued, _⟩
    rw [hlost, List.nil_append] at haccepted
    rw [hqueued, haccepted]
  . apply absurd (nsendtoAccepted_eq_nil ?_) h
    intro env fd buf sinPort sAddr hc hact
    exact hsend ⟨env, fd, buf, sinPort, sAddr, hc, hact⟩

end Datagrams

section Runs

variable {tr : List PktStep} {sys : PktSys}

theorem hasRoom_iff {e : PktStep}
    : e.pre.hasRoom e.act = true ↔ ∀ a, dataLost a e = [] ∧ datagramsLost a e = [] := by
  have hdata : (e.pre.nextFragment e.act).all (fun (a, _) => e.pre.fragmentRoom a e.act) = true
      ↔ ∀ a, dataLost a e = [] := by
    unfold dataLost
    cases e.pre.nextFragment e.act with
    | none => simp
    | some p => simp
  have hdatagrams : (e.pre.nextDatagram e.act).all (fun (a, ol) => e.pre.datagramRoom a ol e.act) = true
      ↔ ∀ a, datagramsLost a e = [] := by
    unfold datagramsLost
    cases e.pre.nextDatagram e.act with
    | none => simp
    | some p => simp
  rw [PktSys.hasRoom, Bool.and_eq_true, hdata, hdatagrams, forall_and]

/--
Nothing that was accepted is lost exactly when the send buffers and `ring->out` have room whenever something is
put on them: by a call, by a pass that has found no address for what it took, or by one that has made a frame.
-/
theorem sendsKept_iff (h : PktRun .init tr sys)
    : SendsKept tr sys ↔ ∀ e ∈ tr, e.pre.hasRoom e.act = true := by
  have hsteps (e : PktStep) (he : e ∈ tr) : pktMachine.step e.pre e.act = .ok (e.post, e.out) :=
    h.step_of_mem he
  have hnsend (a : Addr) := h.kept_of_step_iff (nsendAccepted a) (dataFramed a) (dataClosed a) (dataLost a)
    (dataHeld a) (dataQueued a) rfl (fun e he => dataFlow_of_step (hsteps e he) a)
    (fun e he => dataQueued_of_accepted (hsteps e he))
  have hnsendto (a : Addr) := h.kept_of_step_iff (nsendtoAccepted a) (datagramsFramed a) (datagramsClosed a)
    (datagramsLost a) (datagramsHeld a) (datagramsQueued a) rfl
    (fun e he => datagramFlow_of_step (hsteps e he) a)
    (fun e he => datagramsQueued_of_accepted (hsteps e he))
  constructor
  . intro hkept e he
    rw [hasRoom_iff]
    intro a
    exact ⟨(hnsend a).mp (hkept.nsend a) e he, (hnsendto a).mp (hkept.nsendto a) e he⟩
  . intro hroom
    constructor
    . intro a
      exact (hnsend a).mpr (fun e he => (hasRoom_iff.mp (hroom e he) a).1)
    . intro a
      exact (hnsendto a).mpr (fun e he => (hasRoom_iff.mp (hroom e he) a).2)

/--
A datagram waits for an address that is not known, and another one is sent while `udp_out` holds it.
-/
def waitingTurns : List PktSys.Turn :=
  callTurns [.nsocket .granting sockDgram, .nsendto .granting 3 [1, 2] 0 7] ++ threadTurns 3 []
    ++ callTurns [.nsendto .granting 3 [3] 0 7] ++ threadTurns 4 []

theorem sendsKept_iff_waiting
    : ∃ tr sys, PktRun .init tr sys ∧ tr.map Edge.act = waitingTurns
        ∧ (datagramsQueued 0 sys).map Offload.data = [[3], [1, 2]] ∧ SendsKept tr sys := by
  have hcheck : pktMachine.check .init waitingTurns (fun tr sys =>
      tr.all (fun e => e.pre.hasRoom e.act)
        && (datagramsQueued 0 sys).map Offload.data == [[3], [1, 2]]) = true := by
    decide +kernel
  rcases Machine.exists_run_of_check hcheck with ⟨tr, sys, hrun, hacts, htest⟩
  rw [Bool.and_eq_true, List.all_eq_true, beq_iff_eq] at htest
  exact ⟨tr, sys, hrun, hacts, htest.2, (sendsKept_iff hrun).mpr htest.1⟩

def sendTurn : PktSys.Turn :=
  .call ⟨.nsendto .granting 3 [1] 0 7, rfl⟩

/--
A datagram socket is opened and sends `n` datagrams before the packet thread gets to them.
-/
def sendTurns (n : Nat) : List PktSys.Turn :=
  callTurns [.nsocket .granting sockDgram] ++ List.replicate n sendTurn

/--
The descriptor 3 denotes the socket at 0, which has a send buffer.
-/
def Sending (sys : PktSys) : Prop :=
  ∃ host ring, sys.stack.lhost.find? (fun host => 3 == host.fd) = some (0, host) ∧ host.sndbuf = some ring

theorem sending_of_sendTurn (h : Sending sys)
    : ∃ sys', pktMachine.step sys sendTurn = .ok (sys', { ret := 1 }) ∧ Sending sys'
        ∧ (nsendtoAccepted 0 ⟨sys, sendTurn, { ret := 1 }, sys'⟩).length = 1 := by
  rcases h with ⟨host, ring, hfind, hsnd⟩
  have hinfo : getHostinfoFromfd sys.stack 3 = some (.host 0 host) := by
    rw [getHostinfoFromfd, hfind]
  let host' := { host with sndbuf := some (rteRingMpEnqueue ring (host.sndOffload [1] 0 7)) }
  let stack := { sys.stack with lhost := sys.stack.lhost.modify 0 (fun old => { old with sndbuf := host'.sndbuf }) }
  have hcall : nsendto .granting sys.stack 3 [1] 0 7 = .ok (1, stack) := by
    unfold nsendto
    rw [hinfo]
    dsimp only [Hostinfo.asHost]
    rw [hsnd]
    rfl
  refine ⟨{ sys with stack }, ?_, ⟨host', _, ?_, rfl⟩, ?_⟩
  . have hstep : sys.stack.step (.nsendto .granting 3 [1] 0 7) = .ok (stack, { ret := 1 }) := by
      rw [Stack.step, hcall]
      rfl
    change sys.run (.nsendto .granting 3 [1] 0 7) sys.pc = _
    rw [PktSys.run, hstep]
    rfl
  . dsimp only [stack]
    rw [ObjList.find?_modify, hfind]
    . rfl
    . exact fun _ _ => rfl
  . rw [nsendtoAccepted]
    dsimp only [sendTurn]
    rw [hinfo]
    rfl

/-- The calls return their length, whatever the send buffer holds. -/
theorem exists_sendTurns (n : Nat)
    : ∃ tr sys, PktRun .init tr sys ∧ tr.map Edge.act = sendTurns n ∧ Sending sys
        ∧ ((∀ e ∈ tr, nsendtoAccepted 0 e ≠ []
            → datagramsQueued 0 e.post = datagramsQueued 0 e.pre ++ nsendtoAccepted 0 e)
          → (datagramsQueued 0 sys).length = n) := by
  induction n with
  | zero =>
    have hcheck : pktMachine.check .init (sendTurns 0) (fun _ sys => (datagramsQueued 0 sys).isEmpty
        && (sys.stack.lhost.find? (fun host => 3 == host.fd)).any (fun found =>
          found.1 == 0 && found.2.sndbuf.isSome)) = true := by
      decide +kernel
    rcases Machine.exists_run_of_check hcheck with ⟨tr, sys, hrun, hacts, htest⟩
    rw [Bool.and_eq_true, List.isEmpty_iff] at htest
    rw [Option.any_eq_true] at htest
    rcases htest with ⟨hempty, ⟨a, host⟩, hfind, hfound⟩
    rw [Bool.and_eq_true, beq_iff_eq, Option.isSome_iff_exists] at hfound
    rcases hfound with ⟨rfl, ring, hsnd⟩
    exact ⟨tr, sys, hrun, hacts, ⟨host, ring, hfind, hsnd⟩, fun _ => by rw [hempty]; rfl⟩
  | succ n ih =>
    rcases ih with ⟨tr, sys, hrun, hacts, hsending, hlen⟩
    rcases sending_of_sendTurn hsending with ⟨sys', hstep, hsending', haccepted⟩
    refine ⟨tr ++ [⟨sys, sendTurn, { ret := 1 }, sys'⟩], sys', hrun.snoc hstep, ?_, hsending', ?_⟩
    . rw [List.map_append, hacts, sendTurns, sendTurns, List.replicate_succ', List.append_assoc]
      rfl
    . intro hstored
      rw [List.forall_mem_append, List.forall_mem_singleton] at hstored
      have hlast := hstored.2 (List.ne_nil_of_length_eq_add_one haccepted)
      dsimp only at hlast
      rw [hlast, List.length_append, haccepted, hlen hstored.1]

/-- The ring of a send buffer holds 1023 items, and the call that finds it full returns its length all the
same. -/
theorem not_sendsKept
    : ∃ tr sys, PktRun .init tr sys ∧ tr.map Edge.act = sendTurns ringSize ∧ ¬SendsKept tr sys := by
  rcases exists_sendTurns ringSize with ⟨tr, sys, hrun, hacts, _, hlen⟩
  refine ⟨tr, sys, hrun, hacts, ?_⟩
  intro hkept
  have hlen := hlen (hkept.nsendto 0).stored
  have hbounded : (datagramsQueued 0 sys).length ≤ ringSize - 1 := by
    unfold datagramsQueued datagramsOf
    cases sys.stack.lhost.get? 0 with
    | none => simp
    | some host =>
      cases hsnd : host.sndbuf with
      | none => simp [Localhost.sndItems, hsnd]
      | some ring =>
        have := ring.queue.bounded
        simpa [Localhost.sndItems, hsnd, RteRing.items] using this
  rw [hlen] at hbounded
  contradiction

end Runs

end NgStack
