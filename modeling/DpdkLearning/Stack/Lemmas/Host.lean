import DpdkLearning.Stack.Lemmas.System

/-!
This module contains what one step of the machine can do to the datagram socket at a given address.
-/

open Lib

namespace NgStack

/--
What `udp_process` puts on a receive ring.
-/
def rcvOffload (m : Mbuf) (data : List UInt8) : Offload where
  dip := m.ip.dstAddr
  sip := m.ip.srcAddr
  sport := m.udp.srcPort
  dport := m.udp.dstPort
  protocol := ipprotoUdp.toNat
  length := ntohs m.udp.dgramLen
  data

namespace Offload

/--
The byte that a copy from place `i` of the payload gets.
-/
def byte (ol : Offload) (heap : Nat → UInt8) (i : Nat) : UInt8 :=
  ol.data.getD i (heap i)

/--
What a read of `len` bytes puts back.
-/
def left (ol : Offload) (heap : Nat → UInt8) (len : Nat) : List Offload :=
  if len < ol.length.toNat then
    [{ ol with
        length := UInt16.ofNat (ol.length.toNat - len)
        data := (List.range (ol.length.toNat - len)).map (fun i => ol.byte heap (len + i)) }]
  else
    []

/--
What the read gives its caller.
-/
def readOut (ol : Offload) (heap buf : Nat → UInt8) (len : Nat) : Out where
  ret := (min len ol.length.toNat : Nat)
  buf := fun i => if i < min len ol.length.toNat then ol.byte heap i else buf i
  peer := some (ol.sport, ol.sip)

end Offload

/--
What `nsendto` puts on a send ring.
-/
def Localhost.sndOffload (host : Localhost) (buf : List UInt8) (sinPort : UInt16) (sAddr : UInt32)
    : Offload where
  dip := sAddr
  dport := sinPort
  sip := host.localip
  sport := host.localport
  protocol := 0
  length := UInt16.ofNat buf.length
  data := buf

/--
The datagram that a packet brings, and the socket it is for. Without memory there is none.
-/
def udpTaken (env : Env) (s : Stack) (m : Mbuf) : Option (Addr × Localhost × List UInt8) :=
  match getHostinfoFromipPort s m.ip.dstAddr m.udp.dstPort m.ip.nextProtoId with
  | none => none
  | some (a, host) =>
    if env.rteMalloc 0 then
      (udpPayload env m).map (fun data => (a, host, data))
    else
      none

/--
What a step does to the socket at `a`.
-/
inductive HostStep (s : Stack) (a : Addr) (act : Act)
    : Out → Option Localhost → Option Localhost → Prop where
  | same {out : Out} (host : Option Localhost)
    (hstore : ∀ env m host data, act = .udpProcess env m → udpTaken env s m ≠ some (a, host, data))
    (hread : ∀ env sockfd buf len host, act = .nrecvfrom env sockfd buf len
      → getHostinfoFromfd s sockfd ≠ some (.host a host))
    : HostStep s a act out host host
  | opened {env : Env} {type r : Int} {host : Localhost} (hact : act = .nsocket env type)
    (hnew : a = s.lhost.next) (hrcv : host.rcvItems = []) (hsnd : host.sndItems = [])
    : HostStep s a act { ret := r } none (some host)
  | bound {sockfd r : Int} {sinPort : UInt16} {sAddr : UInt32} {mac : MacAddr} {host : Localhost}
    (hact : act = .nbind sockfd sinPort sAddr)
    : HostStep s a act { ret := r } (some host) (some { host with
        localport := sinPort, localip := sAddr, localmac := mac })
  | stored {env : Env} {m : Mbuf} {host : Localhost} {data : List UInt8} {rcvbuf : RteRing Offload}
    (hact : act = .udpProcess env m) (htaken : udpTaken env s m = some (a, host, data))
    (hrcv : rcvbuf.items = host.rcvItems
      ++ if host.rcvItems.length < ringSize - 1 then [rcvOffload m data] else [])
    : HostStep s a act { ret := 0 } (some host) (some { host with rcvbuf := some rcvbuf })
  | received {env : Env} {sockfd : Int} {buf : Nat → UInt8} {len : Nat} {host : Localhost}
    {ol : Offload} {rest : List Offload} {rcvbuf : RteRing Offload}
    (hact : act = .nrecvfrom env sockfd buf len)
    (hinfo : getHostinfoFromfd s sockfd = some (.host a host)) (hitems : host.rcvItems = ol :: rest)
    (hrcv : rcvbuf.items = rest ++ ol.left env.heap len)
    : HostStep s a act (ol.readOut env.heap buf len) (some host)
        (some { host with rcvbuf := some rcvbuf })
  | sent {env : Env} {sockfd : Int} {buf : List UInt8} {sinPort : UInt16} {sAddr : UInt32}
    {host : Localhost} {sndbuf : RteRing Offload} (hact : act = .nsendto env sockfd buf sinPort sAddr)
    (hsnd : sndbuf.items = host.sndItems ++ if host.sndItems.length < ringSize - 1 then
      [host.sndOffload buf sinPort sAddr] else [])
    : HostStep s a act { ret := buf.length } (some host) (some { host with sndbuf := some sndbuf })
  | out {env : Env} {host : Localhost} {sndbuf : Option (RteRing Offload)} {frames : List UdpFrame}
    (hact : act = .udpOut env)
    : HostStep s a act { ret := 0, udpFrames := frames } (some host) (some { host with sndbuf })
  | removed {env : Env} {fd r : Int} {host : Localhost} (hact : act = .nclose env fd)
    : HostStep s a act { ret := r } (some host) none

namespace HostStep

variable {s s' : Stack} {a : Addr} {act : Act} {out : Out}

theorem unchanged (h : s'.lhost = s.lhost) (hstore : ∀ env m, act ≠ .udpProcess env m)
    (hread : ∀ env sockfd buf len, act ≠ .nrecvfrom env sockfd buf len)
    : HostStep s a act out (s.lhost.get? a) (s'.lhost.get? a) := by
  rw [h]
  apply same
  . intro env m _ _ hact
    exact absurd hact (hstore env m)
  . intro env sockfd buf len _ hact
    exact absurd hact (hread env sockfd buf len)

theorem of_modify {b : Addr} {host : Localhost} {f : Localhost → Localhost}
    (hhost : s.lhost.get? b = some host) (h : HostStep s b act out (some host) (some (f host)))
    (hne : a ≠ b → HostStep s a act out (s.lhost.get? a) (s.lhost.get? a))
    : HostStep s a act out (s.lhost.get? a) ((s.lhost.modify b f).get? a) := by
  rw [ObjList.get?_modify]
  split
  . next heq =>
    subst heq
    rw [hhost]
    exact h
  . next h => exact hne h

theorem of_nsocket {env : Env} {type r : Int} (h : NsocketDone env s type (r, s'))
    : HostStep s a (.nsocket env type) { ret := r } (s.lhost.get? a) (s'.lhost.get? a) := by
  cases h with
  | failed | stream => exact unchanged rfl (by simp) (by simp)
  | @host host names htype _ hfd hproto hrcv hsnd =>
    dsimp only
    rw [ObjList.get?_add]
    split
    . next heq =>
      subst heq
      rw [ObjList.get?_next]
      exact opened rfl rfl hrcv hsnd
    . exact same _ (by simp) (by simp)

end HostStep

theorem hostStep_nbind {s s' : Stack} {sockfd r : Int} {sinPort : UInt16} {sAddr : UInt32}
    (h : nbind s sockfd sinPort sAddr = .ok (r, s')) (a : Addr)
    : HostStep s a (.nbind sockfd sinPort sAddr) { ret := r } (s.lhost.get? a) (s'.lhost.get? a) := by
  have hsame : HostStep s a (.nbind sockfd sinPort sAddr) { ret := r } (s.lhost.get? a)
      (s.lhost.get? a) :=
    .unchanged rfl (by simp) (by simp)
  unfold nbind at h
  split at h
  . cases h
    exact hsame
  . next i hinfo =>
    split at h
    . split at h
      . contradiction
      . next b host hhost =>
        rw [Hostinfo.asHost_eq_ok_iff] at hhost
        subst hhost
        cases h
        refine .of_modify (getHostinfoFromfd_host hinfo).1 ?_ (fun _ => hsame)
        exact .bound rfl
    . split at h
      . split at h
        . contradiction
        . cases h
          exact hsame
      . cases h
        exact hsame

theorem hostStep_udpProcess {env : Env} {s s' : Stack} {m : Mbuf} {r : Int}
    (h : udpProcess env s m = .ok (r, s')) (a : Addr)
    : HostStep s a (.udpProcess env m) { ret := r } (s.lhost.get? a) (s'.lhost.get? a) := by
  have hsame (hnone : udpTaken env s m = none)
      : HostStep s a (.udpProcess env m) { ret := r } (s.lhost.get? a) (s.lhost.get? a) := by
    apply HostStep.same
    . intro env' m' host data hact
      cases hact
      rw [hnone]
      simp
    . simp
  unfold udpProcess at h
  split at h
  . next hinfo =>
    cases h
    exact hsame (by rw [udpTaken, hinfo])
  . next b host hinfo =>
    split at h
    . next hmalloc =>
      cases h
      exact hsame (by simp [udpTaken, hinfo, show env.rteMalloc 0 = false by simpa using hmalloc])
    . next hmalloc =>
      have hmalloc : env.rteMalloc 0 = true := by simpa using hmalloc
      split at h
      . next hdata =>
        cases h
        exact hsame (by simp [udpTaken, hinfo, hmalloc, hdata])
      . next data hdata =>
        have htaken : udpTaken env s m = some (b, host, data) := by
          simp [udpTaken, hinfo, hmalloc, hdata]
        split at h
        . contradiction
        -- If the ring is full, the datagram is dropped there.
        . next rcvbuf hrcv =>
          cases h
          refine .of_modify (ObjList.get?_of_find? hinfo) ?_ ?_
          . refine .stored rfl htaken ?_
            rw [items_rteRingMpEnqueue]
            simp [Localhost.rcvItems, hrcv, rcvOffload]
          . intro hne
            apply HostStep.same
            . intro env' m' host' data' hact
              cases hact
              rw [htaken]
              simp [Ne.symm hne]
            . simp

theorem hostStep_nrecvfrom {env : Env} {s s' : Stack} {sockfd r : Int} {buf buf' : Nat → UInt8}
    {len : Nat} {peer : Option (UInt16 × UInt32)}
    (h : nrecvfrom env s sockfd buf len = .ok (r, buf', peer, s')) (a : Addr)
    : HostStep s a (.nrecvfrom env sockfd buf len) { ret := r, buf := buf', peer }
        (s.lhost.get? a) (s'.lhost.get? a) := by
  have hsame (hnone : ∀ host, getHostinfoFromfd s sockfd ≠ some (.host a host))
      : HostStep s a (.nrecvfrom env sockfd buf len) { ret := r, buf := buf', peer }
          (s.lhost.get? a) (s.lhost.get? a) := by
    apply HostStep.same
    . simp
    . intro env' sockfd' buf' len' host hact
      cases hact
      exact hnone host
  unfold nrecvfrom at h
  split at h
  . next hinfo =>
    cases h
    exact hsame (by simp [hinfo])
  . next i hinfo =>
    split at h
    . contradiction
    . next b host hhost =>
      rw [Hostinfo.asHost_eq_ok_iff] at hhost
      subst hhost
      have hne (hne : a ≠ b) : ∀ host', getHostinfoFromfd s sockfd ≠ some (.host a host') := by
        intro host'
        rw [hinfo]
        simp [Ne.symm hne]
      split at h
      . contradiction
      . next rcvbuf hrcv =>
        split at h
        . contradiction
        . next ol q hdeq =>
          have hitems : host.rcvItems = ol :: q.items := by
            simp only [Localhost.rcvItems, hrcv, Option.map_some, Option.getD_some]
            exact (rteRingMcDequeue_eq_some_iff.mp hdeq).1
          dsimp at h
          split at h
          -- The datagram is longer than the buffer, and what is left of it goes back to the end of the ring.
          . next hlt =>
            split at h
            . contradiction
            . have hout : ({ ret := r, buf := buf', peer } : Out) = ol.readOut env.heap buf len := by
                cases h
                simp [Offload.readOut, Offload.byte, Nat.min_eq_left (Nat.le_of_lt hlt)]
              rw [hout] at hsame ⊢
              cases h
              refine .of_modify (getHostinfoFromfd_host hinfo).1 ?_ (fun h => hsame (hne h))
              refine .received rfl hinfo hitems ?_
              rw [items_enqueue_of_dequeue hdeq, Offload.left, if_pos hlt]
              rfl
          . next hle =>
            have hout : ({ ret := r, buf := buf', peer } : Out) = ol.readOut env.heap buf len := by
              cases h
              simp [Offload.readOut, Offload.byte, Nat.min_eq_right (Nat.le_of_not_lt hle)]
            rw [hout] at hsame ⊢
            cases h
            refine .of_modify (getHostinfoFromfd_host hinfo).1 ?_ (fun h => hsame (hne h))
            refine .received rfl hinfo hitems ?_
            rw [Offload.left, if_neg hle, List.append_nil]

theorem hostStep_nsendto {env : Env} {s s' : Stack} {sockfd r : Int} {buf : List UInt8}
    {sinPort : UInt16} {sAddr : UInt32} (h : nsendto env s sockfd buf sinPort sAddr = .ok (r, s'))
    (a : Addr)
    : HostStep s a (.nsendto env sockfd buf sinPort sAddr) { ret := r } (s.lhost.get? a)
        (s'.lhost.get? a) := by
  have hsame : HostStep s a (.nsendto env sockfd buf sinPort sAddr) { ret := r } (s.lhost.get? a)
      (s.lhost.get? a) :=
    .unchanged rfl (by simp) (by simp)
  unfold nsendto at h
  split at h
  . cases h
    exact hsame
  . next i hinfo =>
    split at h
    . contradiction
    . next b host hhost =>
      rw [Hostinfo.asHost_eq_ok_iff] at hhost
      subst hhost
      split at h
      . cases h
        exact hsame
      . split at h
        . cases h
          exact hsame
        . split at h
          . contradiction
          . next sndbuf hsnd =>
            cases h
            refine .of_modify (getHostinfoFromfd_host hinfo).1 ?_ (fun _ => hsame)
            refine .sent rfl ?_
            rw [items_rteRingMpEnqueue]
            simp [Localhost.sndItems, hsnd, Localhost.sndOffload]

theorem hostStep_nclose {env : Env} {s s' : Stack} {fd r : Int} (h : NcloseDone env s fd s')
    (a : Addr)
    : HostStep s a (.nclose env fd) { ret := r } (s.lhost.get? a) (s'.lhost.get? a) := by
  cases h with
  | same | fin | listen => exact .unchanged rfl (by simp) (by simp)
  | @host b host names hinfo =>
    dsimp only
    rw [ObjList.get?_remove]
    split
    . next heq =>
      subst heq
      rw [(getHostinfoFromfd_host hinfo).1]
      exact .removed rfl
    . exact .same _ (by simp) (by simp)

theorem udpOutLoop_hosts {env : Env} {as : List Addr} {s s' : Stack} {frames : List UdpFrame}
    (h : udpOutLoop env as s = .ok (s', frames)) (a : Addr)
    : (s'.lhost.get? a).map (fun host => { host with sndbuf := none })
        = (s.lhost.get? a).map (fun host => { host with sndbuf := none }) := by
  induction as generalizing s frames with
  | nil =>
    cases h
    rfl
  | cons b as ih =>
    unfold udpOutLoop at h
    split at h
    . exact ih h
    . next host hget =>
      split at h
      . contradiction
      . next host' frame hout =>
        split at h
        . contradiction
        . next t frames' hloop =>
          cases h
          rw [ih hloop]
          dsimp only
          rw [ObjList.get?_modify]
          split
          . next heq =>
            subst heq
            rw [hget, Option.map_some, Option.map_some, Option.map_some]
            congr 1
            -- The pass over one socket writes nothing but its send ring.
            unfold udpOutHost at hout
            split at hout
            . contradiction
            . split at hout
              . cases hout
                rfl
              . split at hout
                . contradiction
                . split at hout <;> (cases hout; rfl)
          . rfl

theorem hostStep_udpOut {env : Env} {s s' : Stack} {frames : List UdpFrame}
    (h : udpOut env s = .ok (s', frames)) (a : Addr)
    : HostStep s a (.udpOut env) { ret := 0, udpFrames := frames } (s.lhost.get? a)
        (s'.lhost.get? a) := by
  have hhost := udpOutLoop_hosts h a
  cases hpre : s.lhost.get? a with
  | none =>
    rw [hpre, Option.map_none, Option.map_eq_none_iff] at hhost
    rw [hhost]
    exact .same none (by simp) (by simp)
  | some host =>
    rw [hpre, Option.map_some, Option.map_eq_some_iff] at hhost
    rcases hhost with ⟨host', hpost, heq⟩
    rw [hpost]
    simp only [Localhost.mk.injEq] at heq
    rcases host' with ⟨fd, localip, localmac, localport, protocol, sndbuf, rcvbuf⟩
    rcases heq with ⟨rfl, rfl, rfl, rfl, rfl, _, rfl⟩
    exact .out rfl

/--
The calls that work on datagram sockets.
-/
def Act.onHosts : Act → Bool
  | .nsocket .. | .nbind .. | .nsendto .. | .nrecvfrom .. | .nclose .. | .udpProcess .. | .udpOut .. => true
  | _ => false

theorem lhost_of_stepped {s s' : Stack} {act : Act} {out : Out} (h : Stepped s act out s')
    (hact : act.onHosts = false) : s'.lhost = s.lhost := by
  cases h with
  | nsocket | nbind | nsendto | nrecvfrom | nclose | udpProcess | udpOut => contradiction
  | nlisten h => rcases h with rfl | ⟨_, _, _, rfl⟩ <;> rfl
  | naccept h => cases h <;> rfl
  | nsend h => cases h <;> rfl
  | nrecv h => rcases nrecv_cases h with ⟨rfl, _⟩ | ⟨_, _, _, _, _, _, _, _, rfl⟩ <;> rfl
  | nepollCreate h => cases h <;> rfl
  | nepollCtl h => cases h <;> rfl
  | nepollWait h => rcases h with ⟨rfl, _⟩ | ⟨_, _, _, _, _, rfl⟩ <;> rfl
  | epollEventCallback => rfl
  | ngArpEntryInsert => rfl
  | ngTcpProcess h => cases h <;> rfl
  | ngTcpOut h => rw [h.rest]

theorem hostStep_of_step {s s' : Stack} {act : Act} {out : Out}
    (h : machine.step s act = .ok (s', out)) (a : Addr)
    : HostStep s a act out (s.lhost.get? a) (s'.lhost.get? a) := by
  -- All other calls have been seen to leave the sockets alone, so that seven are left.
  cases hact : act.onHosts with
  | false =>
    apply HostStep.unchanged (lhost_of_stepped (stepped_of_step h) hact)
    . rintro env m rfl
      contradiction
    . rintro env sockfd buf len rfl
      contradiction
  | true =>
    cases act with
    | nsocket env type =>
      cases h
      exact .of_nsocket (nsocket_cases env s type)
    | nbind sockfd sinPort sAddr =>
      rcases map_eq_ok h with ⟨⟨r, t⟩, hcall, hout⟩
      cases hout
      exact hostStep_nbind hcall a
    | udpProcess env m =>
      rcases map_eq_ok h with ⟨⟨r, t⟩, hcall, hout⟩
      cases hout
      exact hostStep_udpProcess hcall a
    | nrecvfrom env sockfd buf len =>
      rcases map_eq_ok h with ⟨⟨r, buf', peer, t⟩, hcall, hout⟩
      cases hout
      exact hostStep_nrecvfrom hcall a
    | nsendto env sockfd buf sinPort sAddr =>
      rcases map_eq_ok h with ⟨⟨r, t⟩, hcall, hout⟩
      cases hout
      exact hostStep_nsendto hcall a
    | nclose env fd =>
      rcases map_eq_ok h with ⟨⟨r, t⟩, hcall, hout⟩
      cases hout
      exact hostStep_nclose (nclose_cases hcall) a
    | udpOut env =>
      rcases map_eq_ok h with ⟨⟨t, frames⟩, hcall, hout⟩
      cases hout
      exact hostStep_udpOut hcall a
    | nlisten | naccept | nsend | nrecv | nepollCreate | nepollCtl | nepollWait | epollEventCallback
    | ngArpEntryInsert | ngTcpProcess | ngTcpOut =>
      contradiction

end NgStack
