import DpdkLearning.VhostUser.Lemmas.Control

/-!
This module contains the proof that the two processes go on as they are meant to, whichever of them takes its
next step.
-/

open Lib

namespace VhostUser

variable {env : Env} {s t : System} {e : Event} {out : Out} {j k : Nat} {shm : Nat → VhostVring} {msg : ServerMsg}
  {fds : List Int} {io : Ioctl}

theorem ioctl_of_setHostVring {i n : Nat} (hi : i < vhostClientVringNum) (hn : n < 5)
    : env.initVhostClient[3 + 5 * i + n]? = (env.setHostVring i)[n]? := by
  have hnum : vhostClientVringNum = 2 := rfl
  have hcases : i = 0 ∨ i = 1 := by omega
  rcases hcases with rfl | rfl
  . have hsplit : env.initVhostClient = [.setOwner, .getFeatures, .setMemTable env.memory]
        ++ (env.setHostVring 0 ++ env.setHostVring 1) := rfl
    rw [hsplit, List.getElem?_append_right (by simp), List.getElem?_append_left (by simp [Env.setHostVring]; omega)]
    congr 1
    simp
  . have hsplit : env.initVhostClient = [.setOwner, .getFeatures, .setMemTable env.memory]
        ++ env.setHostVring 0 ++ env.setHostVring 1 := rfl
    have hlen : ([Ioctl.setOwner, .getFeatures, .setMemTable env.memory] ++ env.setHostVring 0).length = 8 := rfl
    rw [hsplit, List.getElem?_append_right (by omega), hlen]
    congr 1
    omega

/-- All requests have their tables and descriptors. -/
theorem payload_initVhostClient (h : env.initVhostClient[k]? = some io)
    : ∃ bytes fds, io.payload env.shmFds = .ok (bytes, fds) := by
  have hmem := List.mem_of_getElem? h
  simp only [Env.initVhostClient, Env.setHostVring, List.mem_append, List.mem_cons, List.not_mem_nil, or_false] at hmem
  rcases hmem with ((rfl | rfl | rfl) | rfl | rfl | rfl | rfl | rfl) | rfl | rfl | rfl | rfl | rfl
  all_goals exact ⟨_, _, rfl⟩

/-- What the server does with the next request. -/
theorem handled_request (hok : env.Ok) (hk : env.initVhostClient[k]? = some io) (h : Arrives env io msg fds)
    (hshm : ∀ i < vhostClientVringNum, (shm i).usedIdx = 0)
    : ∃ reply, (env.stage k).inMsgServer (env.host shm) msg
        = .ok { server := env.stage (k + 1), msg := reply, reply := decide (k = 1) }
      ∧ (k = 1 → reply.request = 1 ∧ reply.flags = vhostUserVersion ∧ reply.size = 8) := by
  have hnum : vhostClientVringNum = 2 := rfl
  have hreq : requestNum = 13 := rfl
  have hlt : k < requestNum := by
    rw [← length_initVhostClient]
    exact (List.getElem?_eq_some_iff.mp hk).1
  have hcases : k = 0 ∨ k = 1 ∨ k = 2 ∨ ∃ i < vhostClientVringNum, ∃ n < 5, k = 3 + 5 * i + n := by
    by_cases hge : 3 ≤ k
    . right
      right
      right
      exact ⟨(k - 3) / 5, by omega, (k - 3) % 5, by omega, by omega⟩
    . omega
  rcases hcases with rfl | rfl | rfl | ⟨i, hi, n, hn, rfl⟩
  . cases hk
    refine ⟨msg.msg, h.setOwner, nofun⟩
  . cases hk
    rcases h.getFeatures (env.stage 1) (env.host shm) with ⟨reply, hreply, hfields⟩
    exact ⟨reply, hreply, fun _ => hfields⟩
  . cases hk
    refine ⟨msg.msg, ?_, nofun⟩
    rw [h.setMemTable (s := env.stage 2) hok rfl rfl]
    rfl
  . rw [ioctl_of_setHostVring hi hn] at hk
    refine ⟨msg.msg, ?_, by omega⟩
    rw [Env.handled_setHostVring hok hi hk h (hshm i hi)]
    have hne : 3 + 5 * i + n ≠ 1 := by omega
    simp [hne]

/-- The first request that was not handled is the next to be received. -/
theorem arrives_of_recv (old : ServerMsg) (rest : Socket) (hk : env.initVhostClient[k]? = some io)
    : ∃ r fds, vhostUserRecvFds (frame env.shmFds io :: rest) old.msg vhostMemoryMaxNregions = .ok (some r)
      ∧ r.ret = vhostUserHdrSize ∧ r.socket = rest
      ∧ Arrives env io
        { msg := r.msg
          fdNum := r.fds.length
          fds := fun i => (r.fds.map env.received).getD i (old.fds i) } fds := by
  rcases payload_initVhostClient hk with ⟨bytes, fds, hpayload⟩
  rcases recv_frame old.msg rest hpayload
    with ⟨r, hrecv, hret, hsocket, hrequest, hflags, hfds, hreads⟩
  refine ⟨r, fds, hrecv, hret, hsocket, hrequest, hflags, hreads, congrArg List.length hfds, ?_⟩
  intro j fd hfd
  rw [hfds]
  simp [List.getD_eq_getElem?_getD, hfd]

theorem isReply_setFlags {reply : VhostUserMsg} (hrequest : reply.request = 1) (hflags : reply.flags = vhostUserVersion)
    (hsize : reply.size = 8)
    : IsReply (reply.setFlags (reply.flags &&& ~~~vhostUserVersionMask ||| vhostUserVersion ||| vhostUserReplyMask)) := by
  have hapart : ∀ (m : Memory) (v : UInt32) (off : Nat), off + 4 ≤ 4 ∨ 8 ≤ off
      → (m.store32 4 v).load32 off = m.load32 off := by
    intro m v off hoff
    rw [Memory.load32, Memory.load32, Memory.store32, Memory.load_store_apart (by simpa using hoff)]
  constructor
  . rw [← hrequest]
    exact hapart _ _ 0 (by omega)
  . have hset : (reply.setFlags (reply.flags &&& ~~~vhostUserVersionMask ||| vhostUserVersion
        ||| vhostUserReplyMask)).flags
        = reply.flags &&& ~~~vhostUserVersionMask ||| vhostUserVersion ||| vhostUserReplyMask := by
      apply Memory.load32_store32
    rw [hset, hflags]
    decide
  . rw [← hsize]
    exact hapart _ _ 8 (by omega)

/-- Before the last request is handled, the server has the fresh rings in view. -/
theorem views_of_handled (hearly : Early env s k) (hk : k < requestNum) {socket : Socket} {pc : ServerPc}
    {toClient : Socket}
    : System.tx { s with toServer := socket, serverPc := pc, server := env.stage (k + 1), toClient } = s.tx
      ∧ System.rx { s with toServer := socket, serverPc := pc, server := env.stage (k + 1), toClient } = s.rx := by
  have hreq : requestNum = 13 := rfl
  have hready := hearly.not_ready hk
  by_cases hlast : k + 1 < requestNum
  . have hready' : (env.stage (k + 1)).ready = false := stage_not_ready hlast
    constructor
    . simp [System.tx, hready, hready']
    . simp [System.rx, hready, hready']
  . obtain rfl : k = 12 := by omega
    constructor
    . simp only [System.tx, hready, hearly.get, cond_false]
      cases (env.stage 13).ready
      . rfl
      . rfl
    . simp only [System.rx, hready, hearly.put, cond_false]
      cases (env.stage 13).ready
      . rfl
      . rfl

theorem late_stage : Late env (env.stage requestNum) where
  memory := rfl
  isPolling := rfl
  fdList := rfl
  vring := by
    intro i hi
    have hnum : vhostClientVringNum = 2 := rfl
    have hcases : i = 0 ∨ i = 1 := by omega
    rcases hcases with rfl | rfl
    . exact ⟨_, rfl⟩
    . exact ⟨_, rfl⟩

theorem Stage.toServer_eq_nil (h : Stage env s j k) (hall : j ≤ k) : s.toServer = [] := by
  rw [h.toServer, List.drop_of_length_le]
  . rfl
  . rw [List.length_take]
    omega

/-- A request that was sent is there to be received, and the server can do what it asks for. -/
theorem receiveSock_step {stack : ServerMsg} {next : ServerPc} (hok : env.Ok) (h : Stage env s j k)
    (hnext : next.early = true)
    : ∃ t out, s.receiveSockServer env stack next = .ok (t, out) ∧ Control env t ∧ Projects env s t out := by
  unfold System.receiveSockServer
  by_cases hall : k < j
  . -- The request at the front of the socket is the next one.
    have hlen : env.initVhostClient.length = requestNum := length_initVhostClient
    have hk : k < requestNum := Nat.lt_of_lt_of_le hall h.made
    obtain ⟨io, hget⟩ : ∃ io, env.initVhostClient[k]? = some io := ⟨_, List.getElem?_eq_getElem (by omega)⟩
    have hfront : (env.initVhostClient.take j).drop k = io :: (env.initVhostClient.take j).drop (k + 1) := by
      rw [List.drop_eq_getElem?_toList_append, List.getElem?_take_of_lt hall, hget]
      rfl
    have hearly := h.early hk
    rcases arrives_of_recv stack (((env.initVhostClient.take j).drop (k + 1)).map (frame env.shmFds)) hget
      with ⟨r, fds, hrecv, hret, hsocket, harrives⟩
    rcases handled_request hok hget harrives hearly.usedIdx with ⟨reply, hhandled, hreply⟩
    have hpos : ¬r.ret < 0 := by
      rw [hret, vhostUserHdrSize]
      decide
    rw [h.toServer, hfront, List.map_cons, hrecv]
    dsimp only
    rw [if_neg hpos, hearly.server, hhandled]
    dsimp only
    rw [hsocket]
    have hstage : ∀ toClient, ClientOk env s.client.pc toClient j (k + 1)
        → Control env { s with
            toServer := ((env.initVhostClient.take j).drop (k + 1)).map (frame env.shmFds)
            serverPc := next
            server := env.stage (k + 1)
            toClient } := by
      intro toClient hclient
      refine ⟨j, k + 1, hall, h.made, rfl, hclient, ?_, ?_⟩
      . intro _
        exact { hearly with server := rfl, pc := hnext }
      . intro hlast
        rw [hlast]
        exact late_stage
    by_cases hone : k = 1
    . -- The client can only be waiting for the reply.
      subst hone
      have hcl := h.client
      cases hpc : s.client.pc with
      | reply todo io' msg =>
        rw [hpc] at hcl
        rcases hcl with ⟨hj, hio', htodo, hempty, _⟩
        rw [if_pos (decide_eq_true rfl)]
        refine ⟨_, _, rfl, hstage _ ?_, views_of_handled hearly hk⟩
        rw [hpc]
        refine ⟨hj, hio', htodo, fun hlt => absurd hlt (by decide), fun _ => ?_⟩
        rcases hreply rfl with ⟨hrequest, hflags, hsize⟩
        refine ⟨_, isReply_setFlags hrequest hflags hsize, ?_⟩
        rw [hempty (by decide)]
        rfl
      | init todo =>
        rw [hpc] at hcl
        exact absurd (hcl.2.2 hall) (by decide)
      | _ =>
        rw [hpc] at hcl
        exact absurd hcl.2.2 (by decide)
    . have hno : ¬decide (k = 1) = true := by simpa using hone
      rw [if_neg hno]
      refine ⟨_, _, rfl, hstage _ ?_, views_of_handled hearly hk⟩
      have hcl := h.client
      cases hpc : s.client.pc with
      | reply todo io' msg =>
        rw [hpc] at hcl
        rcases hcl with ⟨rfl, hio', htodo, hempty, _⟩
        exact ⟨rfl, hio', htodo, fun _ => hempty (by omega), fun htwo => absurd htwo (by omega)⟩
      | init todo =>
        rw [hpc] at hcl
        exact ⟨hcl.1, hcl.2.1, fun hge => Nat.le_succ_of_le (hcl.2.2 hge)⟩
      | _ =>
        rw [hpc] at hcl
        exact ⟨hcl.1, hcl.2.1, Nat.le_succ_of_le hcl.2.2⟩
  . rw [h.toServer_eq_nil (Nat.not_lt.mp hall)]
    exact ⟨s, .quiet, rfl, ⟨j, k, h⟩, rfl, rfl⟩

/-- The server has been told all once it knows the ring for sending. -/
theorem receiveSock_ready {stack : ServerMsg} {next : ServerPc} (h : Stage env s j k) (hready : s.server.ready = true)
    : s.receiveSockServer env stack next = .ok (s, .quiet) := by
  have hk : k = requestNum := by
    by_contra hk
    have hle := Nat.le_trans h.le h.made
    rw [(h.early (by omega)).not_ready (by omega)] at hready
    cases hready
  unfold System.receiveSockServer
  rw [h.toServer_eq_nil (by rw [hk]; exact h.made)]
  rfl

/-- What a call of `receive_sock_server` leaves as it was. -/
theorem receiveSock_frame {stack : ServerMsg} {next : ServerPc} (h : s.receiveSockServer env stack next = .ok (t, out))
    : (∃ toServer toClient server serverPc, t = { s with toServer, toClient, server, serverPc }
        ∧ (serverPc = s.serverPc ∨ serverPc = next))
      ∧ out.onTx = none ∧ out.onRx = none := by
  unfold System.receiveSockServer at h
  split at h
  . contradiction
  . cases h
    exact ⟨⟨_, _, _, _, rfl, .inl rfl⟩, rfl, rfl⟩
  . dsimp only at h
    split at h
    . cases h
      exact ⟨⟨_, _, _, _, rfl, .inr rfl⟩, rfl, rfl⟩
    . split at h
      . contradiction
      . split at h
        . cases h
          exact ⟨⟨_, _, _, _, rfl, .inr rfl⟩, rfl, rfl⟩
        . cases h
          exact ⟨⟨_, _, _, _, rfl, .inr rfl⟩, rfl, rfl⟩

/--
The server is in `process_avail_vring`.
-/
def ServerPc.taking : ServerPc → Bool
  | .kicked _ _ => true
  | .polling => true
  | _ => false

/--
What a step of the server can do.
-/
inductive ServerMove (env : Env) (s : System) : System → Out → Prop where
  | walk (pc : ServerPc) (hs : s.serverPc.early = true) (hpc : pc.early = true)
    (hback : pc.before = true → s.serverPc.before = true ∨ s.bufferSize = 0)
    : ServerMove env s (s.setServerPc pc) .quiet
  | receive (stack : ServerMsg) (pc : ServerPc) (t : System) (out : Out) (hs : s.serverPc.early = true)
    (hpc : pc.early = true) (hback : pc.before = true → s.serverPc.before = true)
    (h : s.receiveSockServer env stack pc = .ok (t, out)) : ServerMove env s t out
  | ignore (pc : ServerPc) (hs : s.serverPc.early = true) (hpc : pc.early = true)
    (hback : pc.before = true → s.serverPc.before = true)
    (hi : s.kicks vhostClientVringIdxTx = 0 ∨ s.server.ready = false)
    : ServerMove env s ((s.setKicks vhostClientVringIdxTx 0).setServerPc pc) .quiet
  | read (idx : Nat) (ready : List Int) (hs : s.serverPc.before = true) (hidx : kickNode < idx)
    (hready : s.server.ready = true)
    : ServerMove env s ((s.setKicks vhostClientVringIdxTx 0).setServerPc (.kicked idx ready)) .quiet
  | get (u : System) (e : Event) (pc : ServerPc) (hs : s.serverPc.taking = true)
    (h : s.serverGetStep env = .ok (u, e))
    (hpc : (pc.early = true ∧ (pc.before = true → ∃ idx ready, s.serverPc = .kicked idx ready ∧ idx ≤ kickNode)
        ∧ ∃ count, e = .processed count)
      ∨ (pc = s.serverPc ∧ ∀ count, e ≠ .processed count))
    : ServerMove env s (u.setServerPc pc) (.tx e)
  | answer (hs : s.serverPc = .answer) (hbuf : s.bufferSize ≠ 0)
    : ServerMove env s (s.setServerPc .putVring) .quiet
  | put (u : System) (e : Event) (pc : ServerPc) (hs : s.serverPc = .putVring)
    (h : s.serverPutStep env = .ok (u, e))
    (hpc : (pc = .kick ∧ ((∃ aIdx buf, e = .accepted aIdx buf) ∨ e = .refused))
      ∨ (pc = .putVring ∧ (∀ aIdx buf, e ≠ .accepted aIdx buf) ∧ e ≠ .refused))
    : ServerMove env s (u.setServerPc pc) (.rx e)
  | kick (hs : s.serverPc = .kick) : ServerMove env s ((s.signal vhostClientVringIdxRx).setServerPc .clear) .quiet
  | clear (hs : s.serverPc = .clear)
    : ServerMove env s { s with bufferSize := 0, serverPc := .traverse } .quiet

/-- Where the server is not about to go on with a ring, it may be told of more of them. -/
theorem Stage.of_pc (h : Stage env s j k) (hpc : s.serverPc.early = false) : k = requestNum := by
  by_contra hk
  have hle := Nat.le_trans h.le h.made
  rw [(h.early (by omega)).pc] at hpc
  contradiction

/-- Once it knows the ring for sending it knows all. -/
theorem Stage.of_ready (h : Stage env s j k) (hready : s.server.ready = true) : k = requestNum := by
  by_contra hk
  have hle := Nat.le_trans h.le h.made
  rw [(h.early (by omega)).not_ready (by omega)] at hready
  contradiction

theorem Stage.isPolling (h : Stage env s j k) : s.server.isPolling = false := by
  by_cases hk : k = requestNum
  . exact (h.late hk).isPolling
  . have hle := Nat.le_trans h.le h.made
    rw [(h.early (by omega)).server]
    rfl

theorem Stage.fdList (h : Stage env s j k) : ∃ kick, s.server.fdList = env.fdListAt kick := by
  by_cases hk : k = requestNum
  . exact ⟨true, (h.late hk).fdList⟩
  . have hle := Nat.le_trans h.le h.made
    rw [(h.early (by omega)).server]
    exact ⟨_, rfl⟩

/-- The only node for kicks is that of the ring for sending. -/
theorem kick_of_getElem {node : FdNode ServerHandler} {kick : Bool} {idx : Nat}
    (h : (env.fdListAt kick)[idx]? = some node) (hnode : node.handler = some .kick)
    : idx = kickNode ∧ node.fd = env.received (env.kickfd 1) := by
  match idx with
  | 0 =>
    cases h
    cases hnode
  | 1 =>
    cases h
    cases hnode
  | 2 =>
    cases kick with
    | true =>
      cases h
      exact ⟨rfl, rfl⟩
    | false =>
      cases h
      cases hnode
  | idx + 3 =>
    have hmem : node ∈ List.replicate 7 FdList.resetFdNode := List.mem_of_getElem? h
    rw [List.eq_of_mem_replicate hmem] at hnode
    cases hnode

theorem ServerPc.before_of_next {idx : Nat} {ready : List Int} (h : (ServerPc.nodes (idx + 1) ready).before = true)
    : (ServerPc.nodes idx ready).before = true := by
  rw [ServerPc.before, decide_eq_true_eq] at h ⊢
  omega

theorem serverNode_move {stack : ServerMsg} {idx : Nat} {ready : List Int} {node : FdNode ServerHandler}
    (hok : env.Ok) (h : Stage env s j k) (hs : s.serverPc = .nodes idx ready) (hnode : s.server.fdList[idx]? = some node)
    (hstep : s.serverNode env stack idx ready node = .ok (t, out)) : ServerMove env s t out := by
  have hearly : s.serverPc.early = true := by
    rw [hs]
    rfl
  have hback : (ServerPc.nodes (idx + 1) ready).before = true → s.serverPc.before = true := by
    rw [hs]
    exact ServerPc.before_of_next
  unfold System.serverNode at hstep
  split at hstep
  . exact .receive stack _ _ _ hearly rfl hback hstep
  . next hhandler =>
    rcases h.fdList with ⟨kick, hlist⟩
    rw [hlist] at hnode
    rcases kick_of_getElem hnode hhandler with ⟨hidx, hfd⟩
    rw [hfd, Env.eventOf_eq hok (by decide)] at hstep
    dsimp only at hstep
    split at hstep
    . next hcond =>
      cases hstep
      refine .read _ _ ?_ ?_ (decide_eq_true hcond.2)
      . rw [hs, hidx]
        rfl
      . rw [hidx]
        exact Nat.lt_succ_self _
    . next hcond =>
      cases hstep
      apply ServerMove.ignore _ hearly rfl hback
      rw [VhostServer.ready, decide_eq_false_iff_not]
      tauto
  . cases hstep
    exact .walk _ hearly rfl (fun hnext => .inl (hback hnext))

theorem setServerPc_of_serverGet {u : System} {e : Event} (hok : env.Ok) (hl : Late env s.server)
    (hget : s.serverGetStep env = .ok (u, e)) : u.setServerPc s.serverPc = u := by
  rcases serverGetStep_cases hok hl hget with ⟨v, g, buffer, size, _, rfl, _⟩
  rfl

theorem serverMove_of_step {stack : ServerMsg} (hok : env.Ok) (h : Stage env s j k)
    (hstep : s.serverStep env stack = .ok (t, out)) : ServerMove env s t out := by
  unfold System.serverStep at hstep
  cases hpc : s.serverPc with
  | traverse =>
    rw [hpc] at hstep
    cases hstep
    apply ServerMove.walk _ (by rw [hpc]; rfl)
    . split
      . rfl
      . rfl
    . intro _
      rw [hpc]
      exact .inl rfl
  | nodes idx ready =>
    have hs : s.serverPc.early = true := by
      rw [hpc]
      rfl
    rw [hpc] at hstep
    dsimp only at hstep
    split at hstep
    . cases hstep
      exact .walk _ hs rfl nofun
    . next node hnode =>
      split at hstep
      . exact serverNode_move hok h hpc hnode hstep
      . cases hstep
        apply ServerMove.walk _ hs rfl
        intro hnext
        rw [hpc]
        exact .inl (ServerPc.before_of_next hnext)
  | kicked idx ready =>
    have hs : s.serverPc.taking = true := by
      rw [hpc]
      rfl
    rw [hpc] at hstep
    dsimp only at hstep
    split at hstep
    . contradiction
    . next u count hget =>
      cases hstep
      refine .get u _ _ hs hget (.inl ⟨rfl, ?_, count, rfl⟩)
      intro hnext
      rw [ServerPc.before, decide_eq_true_eq] at hnext
      exact ⟨idx, ready, hpc, hnext⟩
    . next u e hne hget =>
      cases hstep
      have hlate := h.late (h.of_pc (by rw [hpc]; rfl))
      rw [← setServerPc_of_serverGet hok hlate hget]
      exact .get t _ _ hs hget (.inr ⟨rfl, hne⟩)
  | poll =>
    have hs : s.serverPc.early = true := by
      rw [hpc]
      rfl
    rw [hpc] at hstep
    dsimp only at hstep
    split at hstep
    . split at hstep
      . next hpolling =>
        rw [h.isPolling] at hpolling
        exact absurd hpolling.1 Bool.false_ne_true
      . cases hstep
        exact .walk _ hs rfl nofun
    . next hdesc =>
      cases hstep
      apply ServerMove.walk _ hs rfl
      intro _
      -- The server knows the ring for receiving once it knows all.
      have hk : k ≠ requestNum := by
        rintro rfl
        exact hdesc ((h.late rfl).desc_ne_zero hok (by decide))
      have hle := Nat.le_trans h.le h.made
      exact .inr (h.early (by omega)).bufferSize
  | polling =>
    have hs : s.serverPc.taking = true := by
      rw [hpc]
      rfl
    rw [hpc] at hstep
    dsimp only at hstep
    split at hstep
    . contradiction
    . next u count hget =>
      cases hstep
      exact .get u _ _ hs hget (.inl ⟨rfl, nofun, count, rfl⟩)
    . next u e hne hget =>
      cases hstep
      have hlate := h.late (h.of_pc (by rw [hpc]; rfl))
      rw [← setServerPc_of_serverGet hok hlate hget]
      exact .get t _ _ hs hget (.inr ⟨rfl, hne⟩)
  | answer =>
    rw [hpc] at hstep
    cases hstep
    split
    . next hbuf => exact .answer hpc hbuf
    . next hbuf => exact .walk _ (by rw [hpc]; rfl) rfl (fun _ => .inr (not_not.mp hbuf))
  | putVring =>
    rw [hpc] at hstep
    dsimp only at hstep
    split at hstep
    . contradiction
    . next u aIdx buf hput =>
      cases hstep
      exact .put u _ _ hpc hput (.inl ⟨rfl, .inl ⟨aIdx, buf, rfl⟩⟩)
    . next u hput =>
      cases hstep
      exact .put u _ _ hpc hput (.inl ⟨rfl, .inr rfl⟩)
    . next u e hne hne' hput =>
      cases hstep
      have hsame : t.setServerPc .putVring = t := by
        rcases serverPutStep_cases hok (h.late (h.of_pc (by rw [hpc]; rfl))) hput with ⟨v, p, _, rfl⟩
        rw [← hpc]
        rfl
      rw [← hsame]
      exact .put t _ _ hpc hput (.inr ⟨rfl, hne, hne'⟩)
  | kick =>
    rw [hpc] at hstep
    have hlate := h.late (h.of_pc (by rw [hpc]; rfl))
    dsimp only at hstep
    rw [hlate.kickfd (by decide), Env.eventOf_eq hok (by decide)] at hstep
    cases hstep
    exact .kick hpc
  | clear =>
    rw [hpc] at hstep
    cases hstep
    exact .clear hpc

/-- A step of the server once it knows the rings. -/
theorem Stage.of_late (h : Stage env s j k) (hk : k = requestNum) (hserver : Late env t.server)
    (htoServer : t.toServer = s.toServer) (htoClient : t.toClient = s.toClient) (hpc : t.client.pc = s.client.pc)
    : Stage env t j k where
  le := h.le
  made := h.made
  toServer := htoServer.trans h.toServer
  client := by
    rw [hpc, htoClient]
    exact h.client
  early hlt := absurd hk (Nat.ne_of_lt hlt)
  late _ := hserver

/-- The server goes on, and with one of the rings at most. -/
theorem ServerMove.control (hok : env.Ok) (h : Stage env s j k) (hmove : ServerMove env s t out)
    : Control env t ∧ Projects env s t out := by
  cases hmove with
  | walk pc hs hpc _ =>
    exact ⟨⟨j, k, { h with early := fun hk => { h.early hk with pc := hpc } }⟩, rfl, rfl⟩
  | receive stack pc t out hs hpc _ hstep =>
    rcases receiveSock_step hok h hpc with ⟨u, out', hreceive, hcontrol, hproj⟩
    rw [hreceive] at hstep
    cases hstep
    exact ⟨hcontrol, hproj⟩
  | ignore pc hs hpc _ _ =>
    refine ⟨⟨j, k, ?_⟩, rfl, rfl⟩
    have hkicks : (s.setKicks vhostClientVringIdxTx 0).kicks vhostClientVringIdxRx = s.kicks vhostClientVringIdxRx :=
      s.setKicks_of_ne 0 (by decide)
    exact { h with early := fun hk => { h.early hk with pc := hpc, kicks := hkicks.trans (h.early hk).kicks } }
  | read idx ready hs _ hready =>
    have hk := h.of_ready hready
    exact ⟨⟨j, k, h.of_late hk (h.late hk) rfl rfl rfl⟩, rfl, rfl⟩
  | get u e pc hs hget hpc =>
    have hearly : s.serverPc.early = false := by
      cases hs' : s.serverPc with
      | kicked _ _ => rfl
      | polling => rfl
      | _ =>
        rw [hs'] at hs
        contradiction
    have hk := h.of_pc hearly
    rcases projects_serverGet hok (h.late hk) hget with ⟨hlate, hrx, htx⟩
    rcases serverGetStep_cases hok (h.late hk) hget with ⟨v, g, buffer, bufferSize, _, rfl, _⟩
    exact ⟨⟨j, k, h.of_late hk hlate rfl rfl rfl⟩, hrx, _, htx⟩
  | answer hs hbuf =>
    have hk : k = requestNum := by
      by_contra hk
      have hle := Nat.le_trans h.le h.made
      exact hbuf (h.early (by omega)).bufferSize
    exact ⟨⟨j, k, h.of_late hk (h.late hk) rfl rfl rfl⟩, rfl, rfl⟩
  | put u e pc hs hput hpc =>
    have hk := h.of_pc (by rw [hs]; rfl)
    rcases projects_serverPut hok (h.late hk) hput with ⟨hlate, htx, hrx⟩
    rcases serverPutStep_cases hok (h.late hk) hput with ⟨v, p, _, rfl⟩
    exact ⟨⟨j, k, h.of_late hk hlate rfl rfl rfl⟩, htx, _, hrx⟩
  | kick hs =>
    have hk := h.of_pc (by rw [hs]; rfl)
    exact ⟨⟨j, k, h.of_late hk (h.late hk) rfl rfl rfl⟩, rfl, rfl⟩
  | clear hs =>
    have hk := h.of_pc (by rw [hs]; rfl)
    exact ⟨⟨j, k, h.of_late hk (h.late hk) rfl rfl rfl⟩, rfl, rfl⟩

/--
The client is in `loop_client`.
-/
def ClientPc.looping : ClientPc → Bool
  | .init _ => false
  | .reply _ _ _ => false
  | _ => true

/--
What a step of the client can do.
-/
inductive ClientMove (env : Env) (s : System) : System → Out → Prop where
  | send (io : Ioctl) (todo : List Ioctl) (msg : VhostUserMsg) (fds : List Int)
    (hs : s.client.pc = .init (io :: todo)) (hioctl : vhostIoctl env.shmFds io = .ok (msg, fds))
    : ClientMove env s (System.setClientPc { s with toServer := (vhostUserSendFds env.opened s.toServer msg fds).2 }
        (if 0 ≤ (vhostUserSendFds env.opened s.toServer msg fds).1 ∧ io.needReply then .reply todo io msg
          else .init todo)) .quiet
  | reply (todo : List Ioctl) (io : Ioctl) (msg : VhostUserMsg) (t : System) (out : Out)
    (hs : s.client.pc = .reply todo io msg) (h : s.clientReply todo io msg = .ok (t, out)) : ClientMove env s t out
  | begin (hs : s.client.pc = .init []) : ClientMove env s (s.setClientPc .traverse) .quiet
  | walk (pc : ClientPc) (hs : s.client.pc = .traverse ∨ s.client.pc = .readKick) (hpc : pc.looping = true)
    (htakes : s.kicks vhostClientVringIdxRx = 0 → pc.takes = false) (hwait : pc = .readKick ∨ pc = .processUsed)
    : ClientMove env s (s.setClientPc pc) .quiet
  | read (hs : s.client.pc = .readKick) (hkick : s.kicks vhostClientVringIdxRx ≠ 0)
    : ClientMove env s ((s.setKicks vhostClientVringIdxRx 0).setClientPc .processAvail) .quiet
  | get (u : System) (e : Event) (pc : ClientPc) (hs : s.client.pc = .processAvail)
    (h : s.clientGet env = .ok (u, e))
    (hpc : (pc = .processUsed ∧ ∃ count, e = .processed count) ∨ (pc = .processAvail ∧ ∀ count, e ≠ .processed count))
    : ClientMove env s (u.setClientPc pc) (.rx e)
  | used (u : System) (e : Event) (pc : ClientPc) (hs : s.client.pc = .processUsed)
    (h : s.clientPut env .processUsedVring = .ok (u, e))
    (hpc : (pc = .sendPacket ∧ e = .reclaimed) ∨ (pc = .processUsed ∧ e ≠ .reclaimed))
    : ClientMove env s (u.setClientPc pc) (.tx e)
  | put (p : List UInt8) (u : System) (e : Event) (pc : ClientPc) (hs : s.client.pc = .sendPacket)
    (h : s.clientPut env (.putVring p) = .ok (u, e))
    (hpc : (pc = .kick ∧ ∃ aIdx buf, e = .accepted aIdx buf) ∨ (pc = .traverse ∧ e = .refused)
      ∨ (pc = .sendPacket ∧ (∀ aIdx buf, e ≠ .accepted aIdx buf) ∧ e ≠ .refused))
    : ClientMove env s (u.setClientPc pc) (.tx e)
  | kick (hs : s.client.pc = .kick) : ClientMove env s ((s.signal vhostClientVringIdxTx).setClientPc .traverse) .quiet

theorem clientMove_of_step {p : List UInt8} (hstep : s.clientStep env p = .ok (t, out)) : ClientMove env s t out := by
  unfold System.clientStep at hstep
  cases hpc : s.client.pc with
  | init todo =>
    rw [hpc] at hstep
    cases todo with
    | nil =>
      cases hstep
      exact .begin hpc
    | cons io todo =>
      dsimp only at hstep
      split at hstep
      . contradiction
      . next msg fds hioctl =>
        cases hstep
        exact .send io todo msg fds hpc hioctl
  | reply todo io msg =>
    rw [hpc] at hstep
    exact .reply todo io msg _ _ hpc hstep
  | traverse =>
    rw [hpc] at hstep
    cases hstep
    split
    . next hkick => exact .walk _ (.inl hpc) rfl (fun hzero => absurd hzero hkick) (.inl rfl)
    . exact .walk _ (.inl hpc) rfl (fun _ => rfl) (.inr rfl)
  | readKick =>
    rw [hpc] at hstep
    dsimp only at hstep
    split at hstep
    . next hkick =>
      cases hstep
      exact .read hpc hkick
    . cases hstep
      exact .walk _ (.inr hpc) rfl (fun _ => rfl) (.inr rfl)
  | processAvail =>
    rw [hpc] at hstep
    dsimp only at hstep
    split at hstep
    . contradiction
    . next u count hget =>
      cases hstep
      exact .get u _ _ hpc hget (.inl ⟨rfl, count, rfl⟩)
    . next u e hne hget =>
      cases hstep
      have hsame : t.setClientPc .processAvail = t := by
        rcases clientGet_cases hget with ⟨v, g, _, rfl⟩
        rw [← hpc]
        rfl
      rw [← hsame]
      exact .get t _ _ hpc hget (.inr ⟨rfl, hne⟩)
  | processUsed =>
    rw [hpc] at hstep
    dsimp only at hstep
    split at hstep
    . contradiction
    . next u hput =>
      cases hstep
      exact .used u _ _ hpc hput (.inl ⟨rfl, rfl⟩)
    . next u e hne hput =>
      cases hstep
      have hsame : t.setClientPc .processUsed = t := by
        rcases clientPut_cases hput with ⟨v, p, _, rfl⟩
        rw [← hpc]
        rfl
      rw [← hsame]
      exact .used t _ _ hpc hput (.inr ⟨rfl, hne⟩)
  | sendPacket =>
    rw [hpc] at hstep
    dsimp only at hstep
    split at hstep
    . contradiction
    . next u aIdx buf hput =>
      cases hstep
      exact .put p u _ _ hpc hput (.inl ⟨rfl, aIdx, buf, rfl⟩)
    . next u hput =>
      cases hstep
      exact .put p u _ _ hpc hput (.inr (.inl ⟨rfl, rfl⟩))
    . next u e hne hne' hput =>
      cases hstep
      have hsame : t.setClientPc .sendPacket = t := by
        rcases clientPut_cases hput with ⟨v, p, _, rfl⟩
        rw [← hpc]
        rfl
      rw [← hsame]
      exact .put p t _ _ hpc hput (.inr (.inr ⟨rfl, hne, hne'⟩))
  | kick =>
    rw [hpc] at hstep
    cases hstep
    exact .kick hpc

theorem clientOk_of_looping {pc pc' : ClientPc} {toClient : Socket} (h : ClientOk env pc toClient j k)
    (hloop : pc.looping = true) (hloop' : pc'.looping = true) : ClientOk env pc' toClient j k := by
  have hdone : j = requestNum ∧ toClient = [] ∧ 2 ≤ k := by
    cases pc with
    | init _ => contradiction
    | reply _ _ _ => contradiction
    | _ => exact h
  cases pc' with
  | init _ => contradiction
  | reply _ _ _ => contradiction
  | _ => exact hdone

/-- A step of the client in its loop. -/
theorem Stage.of_client (h : Stage env s j k) (hloop : s.client.pc.looping = true)
    (hloop' : t.client.pc.looping = true) (hserver : t.server = s.server) (htoServer : t.toServer = s.toServer)
    (htoClient : t.toClient = s.toClient) (hearly : Early env s k → Early env t k) : Stage env t j k where
  le := h.le
  made := h.made
  toServer := htoServer.trans h.toServer
  client := by
    rw [htoClient]
    exact clientOk_of_looping h.client hloop hloop'
  early hk := hearly (h.early hk)
  late hk := by
    rw [hserver]
    exact h.late hk

theorem clientPut_step {call : PutCall} (h : Stage env s j k) (hloop : s.client.pc.looping = true)
    (hstep : s.clientPut env call = .ok (t, e)) {pc : ClientPc} (hpc : pc.looping = true) (htakes : pc.takes = false)
    : Control env (t.setClientPc pc) ∧ Projects env s (t.setClientPc pc) (.tx e) := by
  rcases projects_clientPut hstep with ⟨hrx, htx⟩
  rcases clientPut_cases hstep with ⟨v, p, hput, rfl⟩
  refine ⟨⟨j, k, h.of_client hloop hpc rfl rfl rfl ?_⟩, hrx, _, htx⟩
  intro hearly
  have husedIdx : ∀ i < vhostClientVringNum, (Function.update s.shm vhostClientVringIdxTx v i).usedIdx = 0 := by
    intro i hi
    by_cases htx : i = vhostClientVringIdxTx
    . rw [htx, Function.update_self, (putStep_cases hput).2.1]
      exact hearly.usedIdx _ (by decide)
    . rw [Function.update_of_ne htx]
      exact hearly.usedIdx i hi
  exact { hearly with usedIdx := husedIdx, takes := htakes }

/-- The only request that is answered is the second. -/
theorem needReply_iff {io : Ioctl} (hget : env.initVhostClient[j]? = some io) (hj : j < requestNum)
    : io.needReply = true ↔ j = 1 := by
  have hreq : requestNum = 13 := rfl
  have hcases : j = 0 ∨ j = 1 ∨ j = 2 ∨ ∃ i < vhostClientVringNum, ∃ n < 5, j = 3 + 5 * i + n := by
    have hnum : vhostClientVringNum = 2 := rfl
    by_cases hge : 3 ≤ j
    . right
      right
      right
      exact ⟨(j - 3) / 5, by omega, (j - 3) % 5, by omega, by omega⟩
    . omega
  rcases hcases with rfl | rfl | rfl | ⟨i, hi, n, hn, rfl⟩
  . cases hget
    decide
  . cases hget
    decide
  . cases hget
    simp [Ioctl.needReply]
  . rw [ioctl_of_setHostVring hi hn] at hget
    have hn' : n = 0 ∨ n = 1 ∨ n = 2 ∨ n = 3 ∨ n = 4 := by omega
    have hne : ¬3 + 5 * i + n = 1 := by omega
    rcases hn' with rfl | rfl | rfl | rfl | rfl
    all_goals
      cases hget
      simp only [Ioctl.needReply, hne, Bool.false_eq_true]

/-- The client sends no descriptor but its own. -/
theorem opened_of_initVhostClient {io : Ioctl} {msg : VhostUserMsg} {fds : List Int}
    (hio : io ∈ env.initVhostClient) (hioctl : vhostIoctl env.shmFds io = .ok (msg, fds))
    : fds.all env.opened = true := by
  rcases payload_of_vhostIoctl hioctl with ⟨bytes, hpayload⟩
  have hrings : ∀ i < vhostClientVringNum, env.opened (env.shmFds i) = true ∧ env.opened (env.kickfd i) = true
      ∧ env.opened (env.callfd i) = true := by
    intro i hi
    refine ⟨?_, ?_, ?_⟩
    all_goals
      rw [Env.opened, List.any_eq_true]
      exact ⟨i, List.mem_range.mpr hi, by simp⟩
  have hfile : ∀ index fd, env.opened fd = true → (VhostVringFile.payload ⟨index, fd⟩).2.all env.opened = true := by
    intro index fd hfd
    simp only [VhostVringFile.payload]
    split
    . simp [hfd]
    . rfl
  have hset : ∀ i < vhostClientVringNum, io ∈ env.setHostVring i → fds.all env.opened = true := by
    intro i hi hmem
    simp only [Env.setHostVring, List.mem_cons, List.not_mem_nil, or_false] at hmem
    rcases hmem with rfl | rfl | rfl | rfl | rfl
    . cases hpayload
      rfl
    . cases hpayload
      rfl
    . cases hpayload
      exact hfile _ _ (hrings i hi).2.1
    . cases hpayload
      exact hfile _ _ (hrings i hi).2.2
    . cases hpayload
      rfl
  simp only [Env.initVhostClient, List.mem_append, List.mem_cons, List.not_mem_nil, or_false] at hio
  rcases hio with ((rfl | rfl | rfl) | hrx) | htx
  . cases hpayload
    rfl
  . cases hpayload
    rfl
  . cases hpayload
    rw [List.all_map, List.all_eq_true]
    intro i hi
    exact (hrings i (List.mem_range.mp hi)).1
  . exact hset _ (by decide) hrx
  . exact hset _ (by decide) htx

/-- The client sends its next request. -/
theorem clientInit_step {io : Ioctl} {todo : List Ioctl} {msg : VhostUserMsg} (h : Stage env s j k)
    (hpc : s.client.pc = .init (io :: todo)) (hioctl : vhostIoctl env.shmFds io = .ok (msg, fds))
    : Control env (System.setClientPc { s with toServer := (vhostUserSendFds env.opened s.toServer msg fds).2 }
        (if 0 ≤ (vhostUserSendFds env.opened s.toServer msg fds).1 ∧ io.needReply then .reply todo io msg
          else .init todo)) := by
  have hlen : env.initVhostClient.length = requestNum := length_initVhostClient
  have hcl := h.client
  rw [hpc] at hcl
  rcases hcl with ⟨htodo, hempty, hreplied⟩
  have hj : j < requestNum := by
    have := congrArg List.length htodo
    rw [List.length_cons, List.length_drop] at this
    omega
  have hget : env.initVhostClient[j]? = some io := by
    have := congrArg List.head? htodo
    rw [List.head?_drop] at this
    exact this.symm
  have htail : todo = env.initVhostClient.drop (j + 1) := by
    have := congrArg List.tail htodo
    rwa [List.tail_cons, List.tail_drop] at this
  rcases send_frame hioctl (opened_of_initVhostClient (List.mem_of_getElem? hget) hioctl) s.toServer
    with ⟨hret, hsent⟩
  have htake : env.initVhostClient.take (j + 1) = env.initVhostClient.take j ++ [io] := by
    rw [List.take_add_one, hget]
    rfl
  have hdrop : ((env.initVhostClient.take (j + 1)).drop k).map (frame env.shmFds)
      = s.toServer ++ [frame env.shmFds io] := by
    rw [htake, List.drop_append_of_le_length (by rw [List.length_take]; have := h.le; omega), List.map_append,
      ← h.toServer]
    rfl
  have hreply := needReply_iff hget hj
  have hearly : ∀ pc : ClientPc, pc.takes = false → k < requestNum → Early env
      (System.setClientPc { s with toServer := (vhostUserSendFds env.opened s.toServer msg fds).2 } pc) k :=
    fun pc htakes hk => { h.early hk with takes := htakes }
  by_cases hone : j = 1
  . rw [if_pos ⟨hret, hreply.mpr hone⟩]
    refine ⟨j + 1, k, Nat.le_succ_of_le h.le, hj, hsent.trans hdrop.symm, ?_, hearly _ rfl, h.late⟩
    subst hone
    cases hget
    have hle := h.le
    exact ⟨rfl, rfl, htail, fun _ => hempty, fun htwo => absurd htwo (by omega)⟩
  . rw [if_neg (fun h => hone (hreply.mp h.2))]
    refine ⟨j + 1, k, Nat.le_succ_of_le h.le, hj, hsent.trans hdrop.symm, ⟨htail, hempty, ?_⟩, hearly _ rfl, h.late⟩
    intro hge
    exact hreplied (by omega)

/-- The client takes the reply, or goes on waiting for it. -/
theorem clientReply_step {io : Ioctl} {todo : List Ioctl} {msg : VhostUserMsg} (h : Stage env s j k)
    (hpc : s.client.pc = .reply todo io msg)
    : ∃ t, s.clientReply todo io msg = .ok (t, .quiet) ∧ Control env t ∧ t.tx = s.tx ∧ t.rx = s.rx := by
  have hcl := h.client
  rw [hpc] at hcl
  rcases hcl with ⟨rfl, rfl, rfl, hempty, hfull⟩
  have hle := h.le
  by_cases htwo : k = 2
  . rcases hfull htwo with ⟨reply, hreply, hsocket⟩
    have hsize : reply.size.toNat = 8 := by
      rw [hreply.size]
      rfl
    rcases recv_send reply ((msg.setRequest 0).setFlags 0) [] 0 []
      (by rw [hsize]; decide) (Nat.le_refl _) with ⟨r, hrecv, hret, hagrees, _, hrest⟩
    have hpos : ¬r.ret < 0 := by
      rw [hret, vhostUserHdrSize]
      decide
    have hstep : s.clientReply (env.initVhostClient.drop 2) .getFeatures msg
        = .ok ({ s with
          toClient := []
          client := { s.client with pc := .init (env.initVhostClient.drop 2), features := r.msg.u64 } }, .quiet) := by
      rw [System.clientReply, hsocket, hrecv]
      dsimp only
      rw [if_neg hpos, if_pos ⟨hagrees.request_eq.trans hreply.request, by rw [hagrees.flags_eq]; exact hreply.flags⟩,
        hrest]
    refine ⟨_, hstep, ⟨2, k, h.le, h.made, h.toServer, ⟨rfl, rfl, fun _ => Nat.le_of_eq htwo.symm⟩, ?_, h.late⟩, rfl, rfl⟩
    intro hk
    exact { h.early hk with takes := rfl }
  . refine ⟨s, ?_, ⟨2, k, h⟩, rfl, rfl⟩
    rw [System.clientReply, hempty (by omega)]
    rfl

/-- What the end of `vhost_ioctl` leaves as it was. -/
theorem clientReply_frame {todo : List Ioctl} {msg : VhostUserMsg} (h : s.clientReply todo io msg = .ok (t, out))
    : out = .quiet ∧ ∃ toClient pc features, t = { s with toClient, client := { s.client with pc, features } }
      ∧ (pc = s.client.pc ∨ pc = .init todo) := by
  unfold System.clientReply at h
  split at h
  . contradiction
  . cases h
    exact ⟨rfl, _, _, _, rfl, .inl rfl⟩
  . dsimp only at h
    split at h
    . cases h
      exact ⟨rfl, _, _, _, rfl, .inr rfl⟩
    . split at h
      . cases h
        exact ⟨rfl, _, _, _, rfl, .inr rfl⟩
      . contradiction

/-- The client goes on, and with one of the rings at most. -/
theorem ClientMove.control (h : Stage env s j k) (hmove : ClientMove env s t out)
    : Control env t ∧ Projects env s t out := by
  cases hmove with
  | send io todo msg fds hs hioctl => exact ⟨clientInit_step h hs hioctl, rfl, rfl⟩
  | reply todo io msg t out hs hstep =>
    rcases clientReply_step h hs with ⟨u, hreply, hcontrol, htx, hrx⟩
    rw [hreply] at hstep
    cases hstep
    exact ⟨hcontrol, htx, hrx⟩
  | begin hs =>
    have hcl := h.client
    rw [hs] at hcl
    have hlen : env.initVhostClient.length = requestNum := length_initVhostClient
    have hdone : j = requestNum := by
      have hmade := h.made
      have := congrArg List.length hcl.1
      rw [List.length_nil, List.length_drop] at this
      omega
    refine ⟨⟨j, k, h.le, h.made, h.toServer, ⟨hdone, hcl.2.1, hcl.2.2 (by rw [hdone]; decide)⟩, ?_, h.late⟩, rfl, rfl⟩
    intro hk
    exact { h.early hk with takes := rfl }
  | walk pc hs hpc htakes hwait =>
    have hloop : s.client.pc.looping = true := by
      rcases hs with hs | hs
      . rw [hs]
        rfl
      . rw [hs]
        rfl
    refine ⟨⟨j, k, h.of_client hloop hpc rfl rfl rfl ?_⟩, rfl, rfl⟩
    intro hearly
    exact { hearly with takes := htakes hearly.kicks }
  | read hs hkick =>
    refine ⟨⟨j, k, h.of_client (by rw [hs]; rfl) rfl rfl rfl rfl ?_⟩, rfl, rfl⟩
    intro hearly
    exact absurd hearly.kicks hkick
  | get u e pc hs hget hpc =>
    have hloop : pc.looping = true := by
      rcases hpc with ⟨rfl, _⟩ | ⟨rfl, _⟩
      . rfl
      . rfl
    rcases projects_clientGet hget with ⟨htx, hrx⟩
    rcases clientGet_cases hget with ⟨v, g, _, rfl⟩
    refine ⟨⟨j, k, h.of_client (by rw [hs]; rfl) hloop rfl rfl rfl ?_⟩, htx, _, hrx⟩
    intro hearly
    have htakes := hearly.takes
    rw [hs] at htakes
    contradiction
  | used u e pc hs hput hpc =>
    apply clientPut_step h (by rw [hs]; rfl) hput
    . rcases hpc with ⟨rfl, _⟩ | ⟨rfl, _⟩
      . rfl
      . rfl
    . rcases hpc with ⟨rfl, _⟩ | ⟨rfl, _⟩
      . rfl
      . rfl
  | put p u e pc hs hput hpc =>
    apply clientPut_step h (by rw [hs]; rfl) hput
    . rcases hpc with ⟨rfl, _⟩ | ⟨rfl, _⟩ | ⟨rfl, _⟩
      . rfl
      . rfl
      . rfl
    . rcases hpc with ⟨rfl, _⟩ | ⟨rfl, _⟩ | ⟨rfl, _⟩
      . rfl
      . rfl
      . rfl
  | kick hs =>
    refine ⟨⟨j, k, h.of_client (by rw [hs]; rfl) rfl rfl rfl rfl ?_⟩, rfl, rfl⟩
    intro hearly
    have hkicks : (s.signal vhostClientVringIdxTx).kicks vhostClientVringIdxRx = 0 :=
      (s.signal_of_ne (by decide)).trans hearly.kicks
    exact { hearly with kicks := hkicks, takes := rfl }

/--
What a step of either process can do.
-/
def Moved (env : Env) (s t : System) (out : Out) : Prop :=
  ServerMove env s t out ∨ ClientMove env s t out

/-- Whichever process goes on, the two stay in step with each other, and one of the rings goes on at most. -/
theorem control_step (hok : env.Ok) (h : Control env s) {act : SystemAct}
    (hstep : (system env).step s act = .ok (t, out))
    : Moved env s t out ∧ Control env t ∧ Projects env s t out := by
  rcases h with ⟨j, k, h⟩
  cases act with
  | client p =>
    have hmove := clientMove_of_step hstep
    exact ⟨.inr hmove, hmove.control h⟩
  | server stack =>
    have hmove := serverMove_of_step hok h hstep
    exact ⟨.inl hmove, hmove.control hok h⟩

end VhostUser
