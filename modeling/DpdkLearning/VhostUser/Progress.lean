import DpdkLearning.VhostUser.Echo
import DpdkLearning.VhostUser.Reclaim

/-!
This module contains the proof of where the two processes can come to a step that does not come back: neither
the handshake nor the translation of addresses nor the buffer of the server is such a place, but both sides call
`put_vring` without a look at how many descriptors there are.
-/

open Lib

namespace VhostUser

variable {env : Env} {shm : Nat → VhostVring} {s t : System} {tr : Trace} {err : Halt} {call : PutCall}

namespace System

theorem clientGet_error : s.clientGet env = .error err ↔ (rxRing env).step s.rx .get = .error err := by
  have hside : s.rx.get = { vring := s.client.vring vhostClientVringIdxRx, pc := s.client.get } := rfl
  have hshm : s.rx.shm = s.shm vhostClientVringIdxRx := rfl
  rw [rxRing, ring_get_error, hside, hshm, clientGet]
  dsimp only
  generalize getStep _ _ _ = r
  cases r with
  | error e => simp
  | ok r => simp

theorem clientPut_error : s.clientPut env call = .error err ↔ (txRing env).step s.tx (.put call) = .error err := by
  have hside : s.tx.put = { vring := s.client.vring vhostClientVringIdxTx, pc := s.client.put } := rfl
  have hshm : s.tx.shm = s.shm vhostClientVringIdxTx := rfl
  rw [txRing, ring_put_error, hside, hshm, clientPut]
  dsimp only
  generalize putStep _ _ _ _ = r
  cases r with
  | error e => simp
  | ok r => simp

theorem serverPutStep_error (hok : env.Ok) (hl : Late env s.server)
    : s.serverPutStep env = .error err ↔ (rxRing env).step s.rx (.put (.putVring s.kept)) = .error err := by
  have hside : s.rx.put = { vring := (s.server.vring vhostClientVringIdxRx).vring, pc := s.serverPut } := by
    simp [System.rx, hl.ready hok]
  have hshm : s.rx.shm = s.shm vhostClientVringIdxRx := rfl
  rw [rxRing, ring_put_error, hside, hshm, serverPutStep, kept]
  dsimp only
  rw [hl.tables hok (by decide), hl.memory]
  dsimp only
  generalize putStep _ _ _ _ = r
  cases r with
  | error e => simp
  | ok r => simp

/-- The handler has room for what it is called with. -/
theorem serverGetStep_ok (hok : env.Ok) (hl : Late env s.server)
    (hget : ∀ err, (txRing env).step s.tx .get ≠ .error err)
    (hsize : ∀ u dIdx buf size, (txRing env).step s.tx .get = .ok (u, .handled dIdx buf size)
      → size = buf.length.toUInt64 ∧ buf.length ≤ VhostUser.bufferSize)
    : ∀ err, s.serverGetStep env ≠ .error err := by
  intro err herr
  have htx : s.tx.get = { vring := (s.server.vring vhostClientVringIdxTx).vring, pc := s.serverGet } := by
    simp [System.tx, hl.ready hok]
  unfold serverGetStep at herr
  dsimp only at herr
  rw [hl.tables hok (by decide), hl.memory, ← htx] at herr
  dsimp only at herr
  split at herr
  . next e hstep =>
    apply hget e
    simp only [ring]
    rw [show s.tx.shm = s.shm vhostClientVringIdxTx from rfl, hstep]
  . next v g e hstep =>
    split at herr
    . next dIdx buf size =>
      rcases hsize _ dIdx buf size (ring_step_get hstep) with ⟨rfl, hlen⟩
      have hmax : VhostUser.bufferSize = 1528 := rfl
      rw [toNat_toUInt64 (by omega), if_pos ⟨rfl, hlen⟩] at herr
      cases herr
    . cases herr

end System

section

variable (hok : env.Ok) (hrun : Machine.Run (system env) (.init env shm) tr t)
  (hshort : ∀ p ∈ tr.sent, p.length ≤ maxPacket)
include hok hrun hshort

/-- The ring for sending can always go on, but for a call of `put_vring` when all descriptors are under way. -/
theorem tx_halts_iff (act : Act) (err : Halt)
    : (txRing env).step t.tx act = .error err
        ↔ err = .outOfBounds ∧ t.client.put = .idle ∧ (∃ buf, act = .put (.putVring buf))
          ∧ tr.sent.length = (t.client.vring vhostClientVringIdxTx).lastUsedIdx.toNat + vhostVringSize := by
  have hbase := hok.aligned vhostClientVringIdxTx (by decide)
  have hput := Env.finds_clientMap hok (show vhostClientVringIdxTx < vhostClientVringNum by decide)
  have hget := Env.finds_mapHandler hok (show vhostClientVringIdxTx < vhostClientVringNum by decide)
  rcases tx_of_run hok hrun with ⟨tr', hrun', _, haccepted, _⟩
  rw [← haccepted] at hshort
  rw [halts_iff hbase hput hget hrun' hshort act err, ← (ring_delivers hbase hput hget hrun' hshort).2.2.2, haccepted]
  rfl

theorem rx_halts_iff (act : Act) (err : Halt)
    : (rxRing env).step t.rx act = .error err
        ↔ err = .outOfBounds ∧ t.rx.put.pc = .idle ∧ (∃ buf, act = .put (.putVring buf))
          ∧ tr.answered.length = vhostVringSize := by
  have hbase := hok.aligned vhostClientVringIdxRx (by decide)
  have hput := Env.finds_mapHandler hok (show vhostClientVringIdxRx < vhostClientVringNum by decide)
  have hget := Env.finds_clientMap hok (show vhostClientVringIdxRx < vhostClientVringNum by decide)
  have hback := answered_short hok hrun hshort
  have hlastUsedIdx := (echo_of_run hok hrun hshort).lastUsedIdx
  rcases rx_of_run hok hrun with ⟨tr', hrun', _, haccepted, _⟩
  rw [← haccepted] at hback
  rw [halts_iff hbase hput hget hrun' hback act err, ← (ring_delivers hbase hput hget hrun' hback).2.2.2, haccepted,
    hlastUsedIdx, UInt16.toNat_zero, Nat.zero_add]

theorem serverGetStep_never_halts (hl : Late env t.server) : ∀ err, t.serverGetStep env ≠ .error err := by
  have hbase := hok.aligned vhostClientVringIdxTx (by decide)
  have hput := Env.finds_clientMap hok (show vhostClientVringIdxTx < vhostClientVringNum by decide)
  have hget := Env.finds_mapHandler hok (show vhostClientVringIdxTx < vhostClientVringNum by decide)
  apply System.serverGetStep_ok hok hl
  . intro err herr
    rcases ((tx_halts_iff hok hrun hshort .get err).mp herr).2.2.1 with ⟨_, heq⟩
    cases heq
  . -- The packet that the handler gets in this step is one of those that were accepted.
    intro u dIdx buf size hstep
    rcases tx_of_run hok hrun with ⟨tr', hrun', _, haccepted, _⟩
    have hnext := hrun'.snoc hstep
    have hsame : accepted (tr' ++ [⟨t.tx, .get, .handled dIdx buf size, u⟩]) = tr.sent := by
      rw [accepted_append, haccepted]
      exact List.append_nil _
    have hdelivers := ring_delivers hbase hput hget hnext (by rw [hsame]; exact hshort)
    refine ⟨hdelivers.2.1 _ (List.mem_append_right _ (List.mem_singleton_self _)) dIdx buf size rfl, ?_⟩
    have hmem : buf ∈ accepted (tr' ++ [⟨t.tx, .get, .handled dIdx buf size, u⟩]) := by
      apply hdelivers.1.subset
      rw [delivered_append]
      exact List.mem_append_right _ (List.mem_singleton_self _)
    rw [hsame] at hmem
    exact Nat.le_trans (hshort buf hmem) (by decide)

theorem client_halts_iff (p : List UInt8) (err : Halt)
    : t.clientStep env p = .error err
        ↔ err = .outOfBounds ∧ t.client.pc = .sendPacket ∧ t.client.put = .idle
          ∧ tr.sent.length = (t.client.vring vhostClientVringIdxTx).lastUsedIdx.toNat + vhostVringSize := by
  rcases control_of_run hok hrun with ⟨j, k, hstage⟩
  unfold System.clientStep
  cases hpc : t.client.pc with
  | init todo =>
    cases todo with
    | nil => simp
    | cons io todo =>
      -- All requests of `init_vhost_client` can be made.
      have hcl := hstage.client
      rw [hpc] at hcl
      have hget : env.initVhostClient[j]? = some io := by
        have := congrArg List.head? hcl.1
        rw [List.head?_drop] at this
        exact this.symm
      rcases payload_initVhostClient hget with ⟨bytes, fds, hpayload⟩
      rcases vhostIoctl_eq hpayload with ⟨msg, hmsg, _⟩
      simp [hmsg]
  | reply todo io msg =>
    rcases clientReply_step hstage hpc with ⟨u, hreply, _⟩
    simp [hreply]
  | readKick =>
    dsimp only
    split
    . simp
    . simp
  | processAvail =>
    -- The step fails where the call does.
    have hcall : ∀ err, t.clientGet env ≠ .error err := by
      intro err herr
      rcases ((rx_halts_iff hok hrun hshort .get err).mp (System.clientGet_error.mp herr)).2.2.1 with ⟨_, heq⟩
      cases heq
    cases hget : t.clientGet env with
    | error e => exact absurd hget (hcall e)
    | ok r =>
      rcases r with ⟨u, e⟩
      cases e with
      | processed count => simp
      | _ => simp
  | processUsed =>
    have hcall : ∀ err, t.clientPut env .processUsedVring ≠ .error err := by
      intro err herr
      rcases ((tx_halts_iff hok hrun hshort _ err).mp (System.clientPut_error.mp herr)).2.2.1 with ⟨_, heq⟩
      cases heq
    cases hput : t.clientPut env .processUsedVring with
    | error e => exact absurd hput (hcall e)
    | ok r =>
      rcases r with ⟨u, e⟩
      cases e with
      | reclaimed => simp
      | _ => simp
  | sendPacket =>
    have hcall := System.clientPut_error.trans (tx_halts_iff hok hrun hshort (.put (.putVring p)) err)
    simp only [Act.put.injEq, PutCall.putVring.injEq, exists_eq', true_and] at hcall ⊢
    rw [← hcall]
    cases t.clientPut env (.putVring p) with
    | error e => simp
    | ok r =>
      rcases r with ⟨u, e⟩
      cases e with
      | accepted aIdx buf => simp
      | refused => simp
      | _ => simp
  | _ => simp

theorem server_halts_iff (stack : ServerMsg) (err : Halt)
    : t.serverStep env stack = .error err
        ↔ err = .outOfBounds ∧ t.serverPc = .putVring ∧ t.serverPut = .idle ∧ tr.answered.length = vhostVringSize := by
  have hcontrol := control_of_run hok hrun
  have hreceive : ∀ pc : ServerPc, pc.early = true → ∀ err, t.receiveSockServer env stack pc ≠ .error err := by
    intro pc hpc err herr
    rcases hcontrol with ⟨j, k, hstage⟩
    rcases receiveSock_step hok hstage hpc with ⟨u, out, hstep, _⟩
    rw [hstep] at herr
    cases herr
  have hget : t.serverPc.early = false → ∀ err, t.serverGetStep env ≠ .error err :=
    fun hpc => serverGetStep_never_halts hok hrun hshort (hcontrol.late hpc)
  unfold System.serverStep
  cases hpc : t.serverPc with
  | nodes idx ready =>
    dsimp only
    cases t.server.fdList[idx]? with
    | none => simp
    | some node =>
      dsimp only
      split
      . unfold System.serverNode
        split
        . cases hstep : t.receiveSockServer env stack (.nodes (idx + 1) ready) with
          | error e => exact absurd hstep (hreceive _ rfl e)
          | ok r => simp
        . split
          . simp
          . split
            . simp
            . simp
        . simp
      . simp
  | kicked idx ready =>
    cases hstep : t.serverGetStep env with
    | error e => exact absurd hstep (hget (by rw [hpc]; rfl) e)
    | ok r =>
      rcases r with ⟨u, e⟩
      cases e with
      | processed count => simp
      | _ => simp
  | poll =>
    dsimp only
    split
    . split
      . simp
      . simp
    . simp
  | polling =>
    cases hstep : t.serverGetStep env with
    | error e => exact absurd hstep (hget (by rw [hpc]; rfl) e)
    | ok r =>
      rcases r with ⟨u, e⟩
      cases e with
      | processed count => simp
      | _ => simp
  | putVring =>
    have hl := hcontrol.late (by rw [hpc]; rfl)
    have hrx : t.rx.put.pc = t.serverPut := by simp [System.rx, hl.ready hok]
    have hcall := (System.serverPutStep_error hok hl).trans
      (rx_halts_iff hok hrun hshort (.put (.putVring t.kept)) err)
    simp only [Act.put.injEq, PutCall.putVring.injEq, exists_eq', true_and, hrx] at hcall ⊢
    rw [← hcall]
    cases t.serverPutStep env with
    | error e => simp
    | ok r =>
      rcases r with ⟨u, e⟩
      cases e with
      | accepted aIdx buf => simp
      | refused => simp
      | _ => simp
  | kick =>
    dsimp only
    split
    . simp
    . simp
  | _ => simp

/--
Wherever the two processes have come to, with their handshake and whichever of them goes on when, the client
sending packets of at most 1507 bytes, the next step of either of them can be taken but for two: the client
calls `put_vring` while 32768 of its packets are under way, or the server calls it for its 32769th answer, as it
never takes a descriptor back.
-/
theorem system_halts_iff (act : SystemAct) (err : Halt)
    : (system env).step t act = .error err
        ↔ err = .outOfBounds
          ∧ ((∃ p, act = .client p) ∧ t.client.pc = .sendPacket ∧ t.client.put = .idle
              ∧ tr.sent.length = (t.client.vring vhostClientVringIdxTx).lastUsedIdx.toNat + vhostVringSize
            ∨ (∃ stack, act = .server stack) ∧ t.serverPc = .putVring ∧ t.serverPut = .idle
              ∧ tr.answered.length = vhostVringSize) := by
  cases act with
  | client p =>
    have hclient := client_halts_iff hok hrun hshort p err
    simpa [system] using hclient
  | server stack =>
    have hserver := server_halts_iff hok hrun hshort stack err
    simpa [system] using hserver

end

/-- With one packet sent and answered either process can take its next step. -/
theorem system_halts_one
    : ∃ tr t, Machine.Run (system plainEnv) (.init plainEnv (fun _ => blankShm)) tr t
      ∧ Trace.sent tr = [[1, 2]] ∧ ∀ act err, (system plainEnv).step t act ≠ .error err := by
  rcases exists_plain_run with ⟨tr, t, hrun, hsent, hanswered, _⟩
  have hshort : ∀ p ∈ Trace.sent tr, p.length ≤ maxPacket := by
    rw [hsent]
    decide
  have hsize : vhostVringSize = 32768 := rfl
  refine ⟨tr, t, hrun, hsent, ?_⟩
  intro act err herr
  rcases ((system_halts_iff plainEnv_ok hrun hshort act err).mp herr).2 with ⟨_, _, _, hall⟩ | ⟨_, _, _, hall⟩
  . rw [hsent, List.length_singleton] at hall
    omega
  . rw [hanswered, List.length_singleton] at hall
    omega

end VhostUser
