import DpdkLearning.Stack.Impl.PktThread
import DpdkLearning.Stack.Lemmas.Host
import DpdkLearning.Stack.Lemmas.Stream

/-!
This module contains what one step of the packet thread or of an application can do.
-/

open Lib

namespace NgStack

namespace PktPc

/--
The thread is neither at a packet whose sender it has just entered nor at an item it took from a ring.
-/
def between : PktPc → Bool
  | .process .. | .udpSend .. | .tcpSend .. => false
  | _ => true

/--
The thread holds an item that it took from a send buffer.
-/
def sending : PktPc → Bool
  | .udpSend .. | .tcpSend .. => true
  | _ => false

end PktPc

/--
What a step of the machine does.
-/
inductive PktStepped (sys : PktSys) : PktSys.Turn → PktSys → Out → Prop where
  | called {c : Call} {stack : Stack} {out : Out}
    (h : machine.step sys.stack c.1 = .ok (stack, out))
    : PktStepped sys (.call c) { sys with stack } out
  | went {env : Env} {ring : List Mbuf} {pc : PktPc} (hpc : sys.pc.sending = false)
    (hpc' : pc.between = true) : PktStepped sys (.pktProcess env ring) { sys with pc } { ret := 0 }
  | entered {env : Env} {ring mbufs : List Mbuf} {m : Mbuf} {stack : Stack} {out : Out}
    (hpc : sys.pc = .packets (m :: mbufs))
    (h : machine.step sys.stack (.ngArpEntryInsert (env.rteMalloc 0) m.ip.srcAddr m.eth.sAddr)
      = .ok (stack, out))
    : PktStepped sys (.pktProcess env ring) { stack, pc := .process m mbufs } out
  | processed {env : Env} {ring mbufs : List Mbuf} {m : Mbuf} {act : Act} {stack : Stack} {out : Out}
    (hpc : sys.pc = .process m mbufs) (hact : act = .udpProcess env m ∨ act = .ngTcpProcess env m)
    (h : machine.step sys.stack act = .ok (stack, out))
    : PktStepped sys (.pktProcess env ring) { stack, pc := .packets mbufs } out
  | udpTaken {env : Env} {ring : List Mbuf} {a : Addr} {hosts : List Addr} {host : Localhost}
    {ol : Offload} {sndbuf : RteRing Offload} (hpc : sys.pc = .udpOut (a :: hosts))
    (hhost : sys.stack.lhost.get? a = some host) (hsnd : host.sndItems = ol :: sndbuf.items)
    : PktStepped sys (.pktProcess env ring) {
        stack := { sys.stack with
          lhost := sys.stack.lhost.modify a (fun _ => { host with sndbuf := some sndbuf }) }
        pc := .udpSend a ol hosts } { ret := 0 }
  | udpSent {env : Env} {ring : List Mbuf} {a : Addr} {hosts : List Addr} {host : Localhost}
    {ol : Offload} {dstmac : MacAddr} (hpc : sys.pc = .udpSend a ol hosts)
    (hhost : sys.stack.lhost.get? a = some host)
    (hmac : ngGetDstMacaddr sys.stack.arpt ol.dip = some dstmac)
    : PktStepped sys (.pktProcess env ring) {
        stack := { sys.stack with lhost := sys.stack.lhost.modify a (fun _ => host) }
        pc := .udpOut hosts }
        { ret := 0, udpFrames := [{
          host := a, srcmac := host.localmac, dstmac, ol, sent := env.outRoom a }] }
  | udpRequeued {env : Env} {ring : List Mbuf} {a : Addr} {hosts : List Addr} {host : Localhost}
    {ol : Offload} {sndbuf : RteRing Offload} (hpc : sys.pc = .udpSend a ol hosts)
    (hhost : sys.stack.lhost.get? a = some host) (hmiss : ngGetDstMacaddr sys.stack.arpt ol.dip = none)
    (hsnd : sndbuf.items
      = host.sndItems ++ if host.sndItems.length < ringSize - 1 then [ol] else [])
    : PktStepped sys (.pktProcess env ring) {
        stack := { sys.stack with
          lhost := sys.stack.lhost.modify a (fun _ => { host with sndbuf := some sndbuf }) }
        pc := .udpOut hosts } { ret := 0 }
  | tcpTaken {env : Env} {ring : List Mbuf} {a : Addr} {streams : List Addr} {st : NgTcpStream}
    {f : NgTcpFragment} {sndbuf : RteRing NgTcpFragment} (hpc : sys.pc = .tcpOut (a :: streams))
    (hst : sys.stack.stream? a = some st) (hsnd : st.sndItems = f :: sndbuf.items)
    : PktStepped sys (.pktProcess env ring) {
        stack := sys.stack.modifyStream a (fun _ => { st with sndbuf := some sndbuf })
        pc := .tcpSend a f streams } { ret := 0 }
  | tcpSent {env : Env} {ring : List Mbuf} {a : Addr} {streams : List Addr} {st : NgTcpStream}
    {f : NgTcpFragment} {frame : TcpFrame} (hpc : sys.pc = .tcpSend a f streams)
    (hst : sys.stack.stream? a = some st) (hmac : (ngGetDstMacaddr sys.stack.arpt st.sip).isSome)
    (hframe : frame.stream = a ∧ frame.fragment = f) (hsent : frame.sent = env.outRoom a)
    : PktStepped sys (.pktProcess env ring) {
        stack := sys.stack.modifyStream a (fun _ => st)
        pc := .tcpOut streams } { ret := 0, tcpFrames := [frame] }
  | tcpRequeued {env : Env} {ring : List Mbuf} {a : Addr} {streams : List Addr} {st : NgTcpStream}
    {f : NgTcpFragment} {sndbuf : RteRing NgTcpFragment} (hpc : sys.pc = .tcpSend a f streams)
    (hst : sys.stack.stream? a = some st) (hmiss : ngGetDstMacaddr sys.stack.arpt st.sip = none)
    (hsnd : sndbuf.items = st.sndItems ++ enqueued st.sndItems.length f)
    : PktStepped sys (.pktProcess env ring) {
        stack := sys.stack.modifyStream a (fun _ => { st with sndbuf := some sndbuf })
        pc := .tcpOut streams } { ret := 0 }

theorem pktStepped_of_udpOut {sys sys' : PktSys} {env : Env} {ring : List Mbuf} {out : Out} {a : Addr}
    {hosts : List Addr} (hpc : sys.pc = .udpOut (a :: hosts))
    (h : sys.pktProcess env ring = .ok (sys', out)) : PktStepped sys (.pktProcess env ring) sys' out := by
  have hwent (pc : PktPc) (hpc' : pc.between = true)
      : PktStepped sys (.pktProcess env ring) { sys with pc } { ret := 0 } :=
    .went (by rw [hpc]; rfl) hpc'
  unfold PktSys.pktProcess at h
  simp only [hpc] at h
  split at h
  . cases h
    exact hwent _ rfl
  . next host hhost =>
    split at h
    . contradiction
    . cases h
      exact hwent _ rfl
    . next ol host' htaken =>
      cases h
      unfold udpOutDequeue at htaken
      split at htaken
      . contradiction
      . next sndbuf hsnd =>
        split at htaken
        . cases htaken
        . next ol' rest hdeq =>
          cases htaken
          refine .udpTaken hpc hhost ?_
          simp only [Localhost.sndItems, hsnd, Option.map_some, Option.getD_some]
          exact (rteRingMcDequeue_eq_some_iff.mp hdeq).1

theorem pktStepped_of_udpSend {sys sys' : PktSys} {env : Env} {ring : List Mbuf} {out : Out} {a : Addr}
    {ol : Offload} {hosts : List Addr} (hpc : sys.pc = .udpSend a ol hosts)
    (h : sys.pktProcess env ring = .ok (sys', out)) : PktStepped sys (.pktProcess env ring) sys' out := by
  unfold PktSys.pktProcess at h
  simp only [hpc] at h
  split at h
  . contradiction
  . next host hhost =>
    split at h
    . contradiction
    . next host' frames hsent =>
      cases h
      unfold udpOutSend at hsent
      split at hsent
      . contradiction
      . split at hsent
        . next hmiss =>
          split at hsent
          . contradiction
          . next sndbuf hsnd =>
            cases hsent
            refine .udpRequeued hpc hhost hmiss ?_
            rw [items_rteRingMpEnqueue]
            simp [Localhost.sndItems, hsnd]
        . next dstmac hmac =>
          cases hsent
          exact .udpSent hpc hhost hmac

theorem pktStepped_of_tcpOut {sys sys' : PktSys} {env : Env} {ring : List Mbuf} {out : Out} {a : Addr}
    {streams : List Addr} (hpc : sys.pc = .tcpOut (a :: streams))
    (h : sys.pktProcess env ring = .ok (sys', out)) : PktStepped sys (.pktProcess env ring) sys' out := by
  have hwent (pc : PktPc) (hpc' : pc.between = true)
      : PktStepped sys (.pktProcess env ring) { sys with pc } { ret := 0 } :=
    .went (by rw [hpc]; rfl) hpc'
  unfold PktSys.pktProcess at h
  simp only [hpc] at h
  split at h
  . cases h
    exact hwent _ rfl
  . next st hst =>
    split at h
    . cases h
      exact hwent _ rfl
    . next f st' htaken =>
      cases h
      unfold ngTcpOutDequeue at htaken
      split at htaken
      . contradiction
      . next sndbuf hsnd =>
        split at htaken
        . cases htaken
        . next f' rest hdeq =>
          cases htaken
          refine .tcpTaken hpc hst ?_
          simp only [NgTcpStream.sndItems, hsnd, Option.map_some, Option.getD_some]
          exact (rteRingMcDequeue_eq_some_iff.mp hdeq).1

theorem pktStepped_of_tcpSend {sys sys' : PktSys} {env : Env} {ring : List Mbuf} {out : Out} {a : Addr}
    {f : NgTcpFragment} {streams : List Addr} (hpc : sys.pc = .tcpSend a f streams)
    (h : sys.pktProcess env ring = .ok (sys', out)) : PktStepped sys (.pktProcess env ring) sys' out := by
  unfold PktSys.pktProcess at h
  simp only [hpc] at h
  split at h
  . contradiction
  . next st hst =>
    split at h
    . contradiction
    . next st' frames hsent =>
      cases h
      unfold ngTcpOutSend at hsent
      split at hsent
      . contradiction
      . split at hsent
        . next hmiss =>
          split at hsent
          . contradiction
          . next sndbuf hsnd =>
            cases hsent
            refine .tcpRequeued hpc hst hmiss ?_
            simp [NgTcpStream.sndItems, hsnd, items_enqueue]
        . next dstmac hmac =>
          cases hsent
          exact .tcpSent hpc hst (by simp [hmac]) ⟨rfl, rfl⟩ rfl

theorem pktStepped_of_step {sys sys' : PktSys} {t : PktSys.Turn} {out : Out}
    (h : pktMachine.step sys t = .ok (sys', out)) : PktStepped sys t sys' out := by
  cases t with
  | call c =>
    rcases map_eq_ok h with ⟨⟨stack, out'⟩, hcall, heq⟩
    cases heq
    exact .called hcall
  | pktProcess env ring =>
    have h : sys.pktProcess env ring = .ok (sys', out) := h
    -- One case for each place in `pkt_process` at which a call may come in between.
    cases hpc : sys.pc with
    | dequeueBurst =>
      simp only [PktSys.pktProcess, hpc, PktSys.goto] at h
      cases h
      exact .went (by rw [hpc]; rfl) rfl
    | packets mbufs =>
      cases mbufs with
      | nil =>
        simp only [PktSys.pktProcess, hpc, PktSys.goto] at h
        cases h
        exact .went (by rw [hpc]; rfl) rfl
      | cons m mbufs =>
        simp only [PktSys.pktProcess, hpc] at h
        split at h
        . rcases map_eq_ok h with ⟨⟨stack, out'⟩, hstep, heq⟩
          cases heq
          exact .entered hpc hstep
        . cases h
          exact .went (by rw [hpc]; rfl) rfl
    | process m mbufs =>
      simp only [PktSys.pktProcess, hpc] at h
      split at h
      . rcases map_eq_ok h with ⟨⟨stack, out'⟩, hstep, heq⟩
        cases heq
        exact .processed hpc (.inl rfl) hstep
      . split at h
        . rcases map_eq_ok h with ⟨⟨stack, out'⟩, hstep, heq⟩
          cases heq
          exact .processed hpc (.inr rfl) hstep
        . cases h
          exact .went (by rw [hpc]; rfl) rfl
    | udpOut hosts =>
      cases hosts with
      | nil =>
        simp only [PktSys.pktProcess, hpc, PktSys.goto] at h
        cases h
        exact .went (by rw [hpc]; rfl) rfl
      | cons a hosts => exact pktStepped_of_udpOut hpc h
    | udpSend a ol hosts => exact pktStepped_of_udpSend hpc h
    | tcpOut streams =>
      cases streams with
      | nil =>
        simp only [PktSys.pktProcess, hpc, PktSys.goto] at h
        cases h
        exact .went (by rw [hpc]; rfl) rfl
      | cons a streams => exact pktStepped_of_tcpOut hpc h
    | tcpSend a f streams => exact pktStepped_of_tcpSend hpc h

theorem frames_of_stepped {s s' : Stack} {act : Act} {out : Out} (h : Stepped s act out s')
    (hudp : ∀ env, act ≠ .udpOut env) (htcp : ∀ env, act ≠ .ngTcpOut env)
    : out.udpFrames = [] ∧ out.tcpFrames = [] := by
  cases h with
  | udpOut => exact absurd rfl (hudp _)
  | ngTcpOut => exact absurd rfl (htcp _)
  | _ => exact ⟨rfl, rfl⟩

/--
The packet thread gets from one state to the other without a call in between, and makes these frames.
-/
def Alone (sys : PktSys) (udpFrames : List UdpFrame) (tcpFrames : List TcpFrame) (sys' : PktSys) : Prop :=
  ∃ tr, PktRun sys tr sys' ∧ (∀ e ∈ tr, ∃ env ring, e.act = .pktProcess env ring)
    ∧ tr.flatMap (fun e => e.out.udpFrames) = udpFrames
    ∧ tr.flatMap (fun e => e.out.tcpFrames) = tcpFrames

namespace Alone

variable {sys sys' sys'' : PktSys} {udp udp' : List UdpFrame} {tcp tcp' : List TcpFrame}

theorem refl (sys : PktSys) : Alone sys [] [] sys :=
  ⟨[], .nil, by simp, rfl, rfl⟩

theorem trans (h : Alone sys udp tcp sys') (h' : Alone sys' udp' tcp' sys'')
    : Alone sys (udp ++ udp') (tcp ++ tcp') sys'' := by
  rcases h with ⟨tr, hrun, hact, rfl, rfl⟩
  rcases h' with ⟨tr', hrun', hact', rfl, rfl⟩
  refine ⟨tr ++ tr', hrun.append hrun', ?_, by simp, by simp⟩
  intro e he
  rw [List.mem_append] at he
  rcases he with he | he
  . exact hact e he
  . exact hact' e he

theorem of_step (env : Env) (ring : List Mbuf) (out : Out)
    (h : sys.pktProcess env ring = .ok (sys', out)) (hudp : out.udpFrames = udp)
    (htcp : out.tcpFrames = tcp) : Alone sys udp tcp sys' := by
  have hrun : PktRun sys ([] ++ [⟨sys, .pktProcess env ring, out, sys'⟩]) sys' := .snoc .nil h
  refine ⟨_, hrun, ?_, by simp [hudp], by simp [htcp]⟩
  intro e he
  rw [List.nil_append, List.mem_singleton] at he
  exact ⟨env, ring, by rw [he]⟩

theorem of_goto (env : Env) (ring : List Mbuf) {pc : PktPc} (h : sys.pktProcess env ring = sys.goto pc)
    : Alone sys [] [] { sys with pc } := by
  rw [PktSys.goto] at h
  exact of_step env ring _ h rfl rfl

theorem of_run (env : Env) (ring : List Mbuf) {act : Act} {pc : PktPc} {s' : Stack} {r : Int}
    (h : sys.pktProcess env ring = sys.run act pc)
    (hact : sys.stack.step act = .ok (s', { ret := r })) : Alone sys [] [] ⟨s', pc⟩ := by
  rw [PktSys.run, hact] at h
  exact of_step env ring _ h rfl rfl

end Alone

theorem alone_of_pktProcessPacket {env : Env} {mbufs rest : List Mbuf} {s s' : Stack} {m : Mbuf}
    {handover : Handover} (h : pktProcessPacket env mbufs s m = .ok (s', handover))
    : Alone ⟨s, .packets (m :: rest)⟩ [] [] ⟨s', .packets rest⟩ := by
  unfold pktProcessPacket at h
  split at h
  . next hip =>
    dsimp only at h
    have hinsert : Alone ⟨s, .packets (m :: rest)⟩ [] []
        ⟨{ s with arpt := (ngArpEntryInsert (env.rteMalloc 0) s.arpt m.ip.srcAddr m.eth.sAddr).2 },
          .process m rest⟩ := by
      apply Alone.of_run env []
      . simp only [PktSys.pktProcess, hip]
        rfl
      . rfl
    generalize { s with
      arpt := (ngArpEntryInsert (env.rteMalloc 0) s.arpt m.ip.srcAddr m.eth.sAddr).2 } = s1 at h hinsert
    -- The second half of the packet sees the ARP table as the first one has left it.
    refine hinsert.trans ?_
    split at h
    . next hudp =>
      split at h
      . contradiction
      . next r s2 hcall =>
        cases h
        apply Alone.of_run (env.afterArp s.arpt m.ip.srcAddr) []
        . simp only [PktSys.pktProcess, hudp]
          rfl
        . rw [Stack.step, hcall]
          rfl
    . next hudp =>
      split at h
      . next htcp =>
        split at h
        . contradiction
        . next r s2 hcall =>
          cases h
          apply Alone.of_run (env.afterArp s.arpt m.ip.srcAddr) []
          . simp only [PktSys.pktProcess, htcp]
            rfl
          . rw [Stack.step, hcall]
            rfl
      . next htcp =>
        cases h
        apply Alone.of_goto env []
        simp [PktSys.pktProcess, hudp, htcp]
  . next hip =>
    cases h
    apply Alone.of_goto env []
    simp [PktSys.pktProcess, hip]

theorem alone_of_pktProcessLoop {envs : Nat → Env} {mbufs : List Mbuf} {i : Nat} {ms : List Mbuf}
    {s s' : Stack} {handovers : List Handover}
    (h : pktProcessLoop envs mbufs i ms s = .ok (s', handovers))
    : Alone ⟨s, .packets ms⟩ [] [] ⟨s', .packets []⟩ := by
  induction ms generalizing i s handovers with
  | nil =>
    cases h
    exact .refl _
  | cons m ms ih =>
    unfold pktProcessLoop at h
    split at h
    . contradiction
    . next s1 handover hpacket =>
      split at h
      . contradiction
      . next s2 handovers' hloop =>
        cases h
        exact (alone_of_pktProcessPacket hpacket).trans (ih hloop)

theorem alone_of_udpOutHost {env : Env} {s : Stack} {a : Addr} {as : List Addr} {host host' : Localhost}
    {frames : List UdpFrame} (hhost : s.lhost.get? a = some host)
    (h : udpOutHost (env.rtePktmbufAlloc a) (env.outRoom a) s.arpt a host = .ok (host', frames))
    : Alone ⟨s, .udpOut (a :: as)⟩ frames []
        ⟨{ s with lhost := s.lhost.modify a (fun _ => host') }, .udpOut as⟩ := by
  unfold udpOutHost at h
  split at h
  . contradiction
  . next sndbuf hsnd =>
    split at h
    . next hdeq =>
      cases h
      have hsame : s.lhost.modify a (fun _ => host) = s.lhost := by
        apply ObjList.modify_eq_self
        intro x hx
        rw [hhost] at hx
        exact Option.some.inj hx
      rw [hsame]
      apply Alone.of_goto env []
      simp [PktSys.pktProcess, hhost, udpOutDequeue, hsnd, hdeq]
    . next ol rest hdeq =>
      have htaken : Alone ⟨s, .udpOut (a :: as)⟩ [] []
          ⟨{ s with lhost := s.lhost.modify a (fun _ => { host with sndbuf := some rest }) },
            .udpSend a ol as⟩ := by
        refine Alone.of_step env [] { ret := 0 } ?_ rfl rfl
        simp only [PktSys.pktProcess, hhost, udpOutDequeue, hsnd, hdeq]
      have hget : (s.lhost.modify a (fun _ => { host with sndbuf := some rest })).get? a
          = some { host with sndbuf := some rest } := by
        rw [ObjList.get?_modify_self, hhost]
        rfl
      -- The pass writes the socket twice, where the loop of `udp_out` writes it once.
      have htwice (host' : Localhost) : (s.lhost.modify a (fun _ => { host with sndbuf := some rest })).modify
          a (fun _ => host') = s.lhost.modify a (fun _ => host') := by
        rw [ObjList.modify_modify]
        rfl
      rw [← htwice host']
      refine htaken.trans ?_
      split at h
      . contradiction
      . next halloc =>
        split at h
        . next hmiss =>
          cases h
          refine Alone.of_step env [] { ret := 0 } ?_ rfl rfl
          simp only [PktSys.pktProcess, hget, udpOutSend, hmiss]
          rw [if_neg halloc]
        . next dstmac hmac =>
          cases h
          refine Alone.of_step env [] { ret := 0, udpFrames := _ } ?_ rfl rfl
          simp only [PktSys.pktProcess, hget, udpOutSend, hmac]
          rw [if_neg halloc]

theorem alone_of_udpOutLoop {env : Env} {as : List Addr} {s s' : Stack} {frames : List UdpFrame}
    (h : udpOutLoop env as s = .ok (s', frames))
    : Alone ⟨s, .udpOut as⟩ frames [] ⟨s', .udpOut []⟩ := by
  induction as generalizing s frames with
  | nil =>
    cases h
    exact .refl _
  | cons a as ih =>
    unfold udpOutLoop at h
    split at h
    . next hnone =>
      have hskip : Alone ⟨s, .udpOut (a :: as)⟩ [] [] ⟨s, .udpOut as⟩ := by
        apply Alone.of_goto env []
        simp [PktSys.pktProcess, hnone]
      exact hskip.trans (ih h)
    . next host hhost =>
      split at h
      . contradiction
      . next host' frame hout =>
        split at h
        . contradiction
        . next s1 frames' hloop =>
          cases h
          exact (alone_of_udpOutHost hhost hout).trans (ih hloop)

theorem alone_of_ngTcpOutStream {env : Env} {s : Stack} {a : Addr} {as : List Addr} {st st' : NgTcpStream}
    {frames : List TcpFrame} (hst : s.stream? a = some st)
    (h : ngTcpOutStream (env.rtePktmbufAlloc a) (env.outRoom a) s.arpt a st = .ok (st', frames))
    : Alone ⟨s, .tcpOut (a :: as)⟩ [] frames ⟨s.modifyStream a (fun _ => st'), .tcpOut as⟩ := by
  have hidle (hdeq : ngTcpOutDequeue st = none) (hsame : st' = st) (hframes : frames = [])
      : Alone ⟨s, .tcpOut (a :: as)⟩ [] frames ⟨s.modifyStream a (fun _ => st'), .tcpOut as⟩ := by
    have hmodify : s.modifyStream a (fun _ => st) = s := by
      have : s.table.tcbSet.modify a (fun _ => st) = s.table.tcbSet := by
        apply ObjList.modify_eq_self
        intro x hx
        rw [Stack.stream?, hx] at hst
        exact (Option.some.inj hst).symm
      rw [Stack.modifyStream, this]
    rw [hsame, hframes, hmodify]
    apply Alone.of_goto env []
    simp [PktSys.pktProcess, hst, hdeq]
  unfold ngTcpOutStream at h
  split at h
  . next hsnd =>
    cases h
    exact hidle (by simp [ngTcpOutDequeue, hsnd]) rfl rfl
  . next sndbuf hsnd =>
    split at h
    . next hdeq =>
      cases h
      exact hidle (by simp [ngTcpOutDequeue, hsnd, hdeq]) rfl rfl
    . next f rest hdeq =>
      have htaken : Alone ⟨s, .tcpOut (a :: as)⟩ [] []
          ⟨s.modifyStream a (fun _ => { st with sndbuf := some rest }), .tcpSend a f as⟩ := by
        refine Alone.of_step env [] { ret := 0 } ?_ rfl rfl
        simp only [PktSys.pktProcess, hst, ngTcpOutDequeue, hsnd, hdeq]
      have hget : (s.modifyStream a (fun _ => { st with sndbuf := some rest })).stream? a
          = some { st with sndbuf := some rest } := by
        rw [stream?_modifyStream_self, hst]
        rfl
      -- The pass writes the stream twice, where the loop of `ng_tcp_out` writes it once.
      have htwice (st' : NgTcpStream) : (s.modifyStream a (fun _ => { st with sndbuf := some rest })).modifyStream
          a (fun _ => st') = s.modifyStream a (fun _ => st') := by
        simp only [Stack.modifyStream, ObjList.modify_modify]
        rfl
      rw [← htwice st']
      refine htaken.trans ?_
      split at h
      . contradiction
      . next halloc =>
        split at h
        . next hmiss =>
          cases h
          refine Alone.of_step env [] { ret := 0 } ?_ rfl rfl
          simp only [PktSys.pktProcess, hget, ngTcpOutSend]
          rw [if_neg halloc]
          simp only [Stack.modifyStream, hmiss]
        . next dstmac hmac =>
          cases h
          refine Alone.of_step env [] { ret := 0, tcpFrames := _ } ?_ rfl rfl
          simp only [PktSys.pktProcess, hget, ngTcpOutSend]
          rw [if_neg halloc]
          simp only [Stack.modifyStream, hmac]

theorem alone_of_ngTcpOutLoop {env : Env} {as : List Addr} {s s' : Stack} {frames : List TcpFrame}
    (h : ngTcpOutLoop env as s = .ok (s', frames))
    : Alone ⟨s, .tcpOut as⟩ [] frames ⟨s', .tcpOut []⟩ := by
  induction as generalizing s frames with
  | nil =>
    cases h
    exact .refl _
  | cons a as ih =>
    unfold ngTcpOutLoop at h
    split at h
    . next hnone =>
      have hskip : Alone ⟨s, .tcpOut (a :: as)⟩ [] [] ⟨s, .tcpOut as⟩ := by
        apply Alone.of_goto env []
        simp [PktSys.pktProcess, hnone]
      exact hskip.trans (ih h)
    . next st hst =>
      split at h
      . contradiction
      . next st' frame hout =>
        split at h
        . contradiction
        . next s1 frames' hloop =>
          cases h
          exact (alone_of_ngTcpOutStream hst hout).trans (ih hloop)

/-- A round of `pkt_process` is what its thread does when no call comes in between. -/
theorem alone_of_pktProcess {envs : Nat → Env} {outEnv : Env} {s s' : Stack} {ring : List Mbuf}
    {round : PktRound} (h : pktProcess envs outEnv s ring = .ok (s', round))
    : Alone ⟨s, .dequeueBurst⟩ round.udpFrames round.tcpFrames ⟨s', .dequeueBurst⟩ := by
  unfold pktProcess at h
  dsimp only at h
  split at h
  . contradiction
  . next s1 handovers hloop =>
    split at h
    . contradiction
    . next s2 udpFrames hudp =>
      split at h
      . contradiction
      . next s3 tcpFrames htcp =>
        cases h
        have hburst : Alone ⟨s, .dequeueBurst⟩ [] [] ⟨s, .packets (ring.take burstSize)⟩ :=
          .of_goto outEnv ring rfl
        have hpackets : Alone ⟨s1, .packets []⟩ [] [] ⟨s1, .udpOut s1.lhost.addrs⟩ :=
          .of_goto outEnv [] rfl
        have hhosts : Alone ⟨s2, .udpOut []⟩ [] [] ⟨s2, .tcpOut s2.table.tcbSet.addrs⟩ :=
          .of_goto outEnv [] rfl
        have hstreams : Alone ⟨s', .tcpOut []⟩ [] [] ⟨s', .dequeueBurst⟩ := .of_goto outEnv [] rfl
        have hround := (hburst.trans (alone_of_pktProcessLoop hloop)).trans (hpackets.trans
          ((alone_of_udpOutLoop hudp).trans (hhosts.trans ((alone_of_ngTcpOutLoop htcp).trans hstreams))))
        simpa using hround

/--
The turns in which an application makes these calls.
-/
def callTurns (acts : List Act) : List PktSys.Turn :=
  acts.filterMap (fun act => if h : act.isCall = true then some (.call ⟨act, h⟩) else none)

/--
The next `n` turns of the packet thread, which gets everything it asks for.
-/
def threadTurns (n : Nat) (ring : List Mbuf) : List PktSys.Turn :=
  List.replicate n (.pktProcess .granting ring)

end NgStack
