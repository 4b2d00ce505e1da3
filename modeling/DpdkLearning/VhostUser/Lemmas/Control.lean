import DpdkLearning.VhostUser.Lemmas.Handlers
import DpdkLearning.VhostUser.Lemmas.Runs

/-!
This module contains how far the two processes have come with setting up the rings, and that from then on each
of their steps is one of a ring, or of none.
-/

open Lib

namespace VhostUser

/--
The number of requests that the client makes.
-/
def requestNum : Nat := 13

/--
What both sides begin with.
-/
def freshVringState : Vring where
  num := vhostVringSize.toUInt32
  lastAvailIdx := 0
  lastUsedIdx := 0

/--
The server knows where the rings are. The ring for sending is the last that it is told of.
-/
def VhostServer.ready (server : VhostServer) : Bool :=
  decide ((server.vring vhostClientVringIdxTx).desc ≠ 0)

namespace System

/--
The ring that the client puts packets into.
-/
def tx (s : System) : Ring where
  shm := s.shm vhostClientVringIdxTx
  put := { vring := s.client.vring vhostClientVringIdxTx, pc := s.client.put }
  get :=
    bif s.server.ready then
      { vring := (s.server.vring vhostClientVringIdxTx).vring, pc := s.serverGet }
    else
      { vring := freshVringState, pc := .idle }

/--
The ring that the server puts packets into.
-/
def rx (s : System) : Ring where
  shm := s.shm vhostClientVringIdxRx
  put :=
    bif s.server.ready then
      { vring := (s.server.vring vhostClientVringIdxRx).vring, pc := s.serverPut }
    else
      { vring := freshVringState, pc := .idle }
  get := { vring := s.client.vring vhostClientVringIdxRx, pc := s.client.get }

end System

def Out.onTx : Out → Option Event
  | .tx e => some e
  | _ => none

def Out.onRx : Out → Option Event
  | .rx e => some e
  | _ => none

abbrev txRing (env : Env) : Machine Ring Act Event Halt :=
  ring (env.clientMap vhostClientVringIdxTx) (env.mapHandler env.serverMemory vhostClientVringIdxTx)

abbrev rxRing (env : Env) : Machine Ring Act Event Halt :=
  ring (env.mapHandler env.serverMemory vhostClientVringIdxRx) (env.clientMap vhostClientVringIdxRx)

/--
The client is about to take packets.
-/
def ClientPc.takes : ClientPc → Bool
  | .readKick => true
  | .processAvail => true
  | _ => false

def ServerPc.early : ServerPc → Bool
  | .traverse => true
  | .nodes _ _ => true
  | .poll => true
  | .answer => true
  | _ => false

/--
Where the node for kicks is in the list of the server.
-/
def kickNode : Nat := 2

/--
The server has still to come to the node for kicks.
-/
def ServerPc.before : ServerPc → Bool
  | .traverse => true
  | .nodes idx _ => decide (idx ≤ kickNode)
  | _ => false

/--
The reply to `VHOST_USER_GET_FEATURES`.
-/
structure IsReply (msg : VhostUserMsg) : Prop where
  request : msg.request = 1
  flags : msg.flags &&& vhostUserVersionMask = vhostUserVersion
  size : msg.size = 8

/--
The client has made its first `j` requests and the server has handled `k` of them. The reply to the second is
waited for.
-/
def ClientOk (env : Env) (pc : ClientPc) (toClient : Socket) (j k : Nat) : Prop :=
  match pc with
  | .init todo => todo = env.initVhostClient.drop j ∧ toClient = [] ∧ (2 ≤ j → 2 ≤ k)
  | .reply todo io _ =>
    j = 2 ∧ io = .getFeatures ∧ todo = env.initVhostClient.drop 2 ∧ (k < 2 → toClient = [])
      ∧ (k = 2 → ∃ msg, IsReply msg
        ∧ toClient = [(msg.mem.load 0 (vhostUserHdrSize + msg.size.toNat), [])])
  | _ => j = requestNum ∧ toClient = [] ∧ 2 ≤ k

/--
The server is still being told of the rings, and nothing has gone through them.
-/
structure Early (env : Env) (s : System) (k : Nat) : Prop where
  server : s.server = env.stage k
  pc : s.serverPc.early = true
  get : s.serverGet = .idle
  put : s.serverPut = .idle
  bufferSize : s.bufferSize = 0
  usedIdx : ∀ i < vhostClientVringNum, (s.shm i).usedIdx = 0
  kicks : s.kicks vhostClientVringIdxRx = 0
  takes : s.client.pc.takes = false
  clientGet : s.client.get = .idle

/--
The server has been told all.
-/
structure Late (env : Env) (server : VhostServer) : Prop where
  memory : server.memory = env.serverMemory
  isPolling : server.isPolling = false
  fdList : server.fdList = env.fdListAt true
  vring : ∀ i < vhostClientVringNum, ∃ q, server.vring i = { env.vringAt i 5 with vring := q }

structure Stage (env : Env) (s : System) (j k : Nat) : Prop where
  le : k ≤ j
  made : j ≤ requestNum
  toServer : s.toServer = ((env.initVhostClient.take j).drop k).map (frame env.shmFds)
  client : ClientOk env s.client.pc s.toClient j k
  early : k < requestNum → Early env s k
  late : k = requestNum → Late env s.server

def Control (env : Env) (s : System) : Prop := ∃ j k, Stage env s j k

variable {env : Env} {s t : System} {e : Event} {out : Out} {j k : Nat} {shm : Nat → VhostVring}

theorem length_initVhostClient : env.initVhostClient.length = requestNum := by
  rfl

theorem control_init (h : env.Ok) : Control env (System.init env shm) := by
  refine ⟨0, 0, Nat.le_refl _, Nat.zero_le _, rfl, ⟨rfl, rfl, fun hge => absurd hge (by decide)⟩, ?_, ?_⟩
  . intro _
    exact {
      server := Env.newVhostServer_eq h
      pc := rfl
      get := rfl
      put := rfl
      bufferSize := rfl
      usedIdx := fun _ _ => rfl
      kicks := rfl
      takes := rfl
      clientGet := rfl }
  . intro hzero
    cases hzero

namespace Late

variable {server : VhostServer} {i : Nat}

theorem desc (h : Late env server) (hi : i < vhostClientVringNum)
    : (server.vring i).desc = env.serverShm i + descOff.toUInt64 := by
  rcases h.vring i hi with ⟨q, hq⟩
  rw [hq]
  rfl

theorem tables (h : Late env server) (hok : env.Ok) (hi : i < vhostClientVringNum)
    : env.tables (server.vring i) = some i := by
  rcases h.vring i hi with ⟨q, hq⟩
  apply Env.tables_eq hok hi
  . rw [hq]
    rfl
  . rw [hq]
    rfl
  . rw [hq]
    rfl

theorem kickfd (h : Late env server) (hi : i < vhostClientVringNum)
    : (server.vring i).kickfd = env.received (env.kickfd i) := by
  rcases h.vring i hi with ⟨q, hq⟩
  rw [hq]
  rfl

theorem desc_ne_zero (h : Late env server) (hok : env.Ok) (hi : i < vhostClientVringNum)
    : (server.vring i).desc ≠ 0 := by
  rw [h.desc hi]
  intro hzero
  have hoff : descOff.toUInt64.toNat = 8 := rfl
  have hroom := hok.serverShm i hi
  have hpage : pageSize = 51380224 := rfl
  have := congrArg UInt64.toNat hzero
  rw [UInt64.toNat_add, hoff, Nat.mod_eq_of_lt (by omega), UInt64.toNat_zero] at this
  omega

theorem ready (h : Late env server) (hok : env.Ok) : server.ready = true :=
  decide_eq_true (h.desc_ne_zero hok (by decide))

/-- The server goes on with a ring that it knows. -/
theorem setVring (h : Late env server) {q : Vring} (i : Nat)
    : Late env (server.setVring i { server.vring i with vring := q }) where
  memory := h.memory
  isPolling := h.isPolling
  fdList := h.fdList
  vring := by
    intro j hj
    rcases h.vring j hj with ⟨q', hq'⟩
    by_cases hij : j = i
    . subst hij
      refine ⟨q, ?_⟩
      rw [VhostServer.setVring]
      dsimp only
      rw [Function.update_self, hq']
    . refine ⟨q', ?_⟩
      rw [VhostServer.setVring]
      dsimp only
      rw [Function.update_of_ne hij, hq']

end Late

theorem stage_not_ready (hk : k < requestNum) : (env.stage k).ready = false := by
  have hreq : requestNum = 13 := rfl
  have hn : ¬5 ≤ k - 8 := by omega
  rw [VhostServer.ready, Env.stage]
  simp [vhostClientVringIdxTx, Env.vringAt, hn]

theorem Early.not_ready (h : Early env s k) (hk : k < requestNum) : s.server.ready = false := by
  rw [h.server]
  exact stage_not_ready hk

/-- What a call in the client does to its rings. -/
theorem clientGet_cases (h : s.clientGet env = .ok (t, e))
    : ∃ v g, getStep (env.clientMap vhostClientVringIdxRx) (s.shm vhostClientVringIdxRx)
        { vring := s.client.vring vhostClientVringIdxRx, pc := s.client.get } = .ok (v, g, e)
      ∧ t = { s.setShm vhostClientVringIdxRx v with
        client := { s.client with
          vring := Function.update s.client.vring vhostClientVringIdxRx g.vring, get := g.pc } } := by
  unfold System.clientGet at h
  dsimp only at h
  split at h
  . contradiction
  . next v g e' hget =>
    cases h
    exact ⟨v, g, hget, rfl⟩

theorem clientPut_cases {call : PutCall} (h : s.clientPut env call = .ok (t, e))
    : ∃ v p, putStep (env.clientMap vhostClientVringIdxTx) call (s.shm vhostClientVringIdxTx)
        { vring := s.client.vring vhostClientVringIdxTx, pc := s.client.put } = .ok (v, p, e)
      ∧ t = { s.setShm vhostClientVringIdxTx v with
        client := { s.client with
          vring := Function.update s.client.vring vhostClientVringIdxTx p.vring, put := p.pc } } := by
  unfold System.clientPut at h
  dsimp only at h
  split at h
  . contradiction
  . next v p e' hput =>
    cases h
    exact ⟨v, p, hput, rfl⟩

/-- What a call in the server does, with the packet that its handler keeps. -/
theorem serverGetStep_cases (hok : env.Ok) (hl : Late env s.server) (h : s.serverGetStep env = .ok (t, e))
    : ∃ v g buffer bufferSize, getStep (env.mapHandler env.serverMemory vhostClientVringIdxTx)
        (s.shm vhostClientVringIdxTx)
        { vring := (s.server.vring vhostClientVringIdxTx).vring, pc := s.serverGet } = .ok (v, g, e)
      ∧ t = { s.setShm vhostClientVringIdxTx v with
        server := s.server.setVring vhostClientVringIdxTx
          { s.server.vring vhostClientVringIdxTx with vring := g.vring }
        serverGet := g.pc
        buffer
        bufferSize }
      ∧ ((∃ dIdx buf size, e = .handled dIdx buf size ∧ size.toNat = buf.length ∧ size.toNat ≤ VhostUser.bufferSize
          ∧ buffer = buf ++ s.buffer.drop size.toNat ∧ bufferSize = size.toUInt32)
        ∨ ((∀ dIdx buf size, e ≠ .handled dIdx buf size) ∧ buffer = s.buffer ∧ bufferSize = s.bufferSize)) := by
  unfold System.serverGetStep at h
  dsimp only at h
  rw [hl.tables hok (by decide), hl.memory] at h
  dsimp only at h
  split at h
  . contradiction
  . next v g e' hget =>
    split at h
    . next dIdx buf size =>
      split at h
      . next hsize =>
        cases h
        exact ⟨v, g, _, _, hget, rfl, .inl ⟨dIdx, buf, size, rfl, hsize.1, hsize.2, rfl, rfl⟩⟩
      . contradiction
    . next hne =>
      cases h
      exact ⟨v, g, _, _, hget, rfl, .inr ⟨hne, rfl, rfl⟩⟩

theorem serverPutStep_cases (hok : env.Ok) (hl : Late env s.server) (h : s.serverPutStep env = .ok (t, e))
    : ∃ v p, putStep (env.mapHandler env.serverMemory vhostClientVringIdxRx)
        (.putVring (s.buffer.take s.bufferSize.toNat)) (s.shm vhostClientVringIdxRx)
        { vring := (s.server.vring vhostClientVringIdxRx).vring, pc := s.serverPut } = .ok (v, p, e)
      ∧ t = { s.setShm vhostClientVringIdxRx v with
        server := s.server.setVring vhostClientVringIdxRx
          { s.server.vring vhostClientVringIdxRx with vring := p.vring }
        serverPut := p.pc } := by
  unfold System.serverPutStep at h
  dsimp only at h
  rw [hl.tables hok (by decide), hl.memory] at h
  dsimp only at h
  split at h
  . contradiction
  . next v p e' hput =>
    cases h
    exact ⟨v, p, hput, rfl⟩

/--
What a step shows is what happens to the ring that it is about, and nothing happens to the other.
-/
def Projects (env : Env) (s t : System) (out : Out) : Prop :=
  match out with
  | .tx e => t.rx = s.rx ∧ ∃ act, (txRing env).step s.tx act = .ok (t.tx, e)
  | .rx e => t.tx = s.tx ∧ ∃ act, (rxRing env).step s.rx act = .ok (t.rx, e)
  | _ => t.tx = s.tx ∧ t.rx = s.rx

namespace System

@[simp]
theorem setKicks_self (s : System) (i n : Nat) : (s.setKicks i n).kicks i = n := by
  simp [setKicks]

theorem setKicks_of_ne (s : System) {i j : Nat} (n : Nat) (h : j ≠ i) : (s.setKicks i n).kicks j = s.kicks j := by
  simp [setKicks, h]

theorem signal_ne_zero (s : System) (i : Nat) : (s.signal i).kicks i ≠ 0 := by
  have hmax : 0 < eventfdMax := by decide
  rw [signal, setKicks_self]
  split
  . omega
  . omega

theorem signal_of_ne (s : System) {i j : Nat} (h : j ≠ i) : (s.signal i).kicks j = s.kicks j :=
  setKicks_of_ne s _ h

end System

@[simp]
theorem setVring_self (server : VhostServer) (i : Nat) (v : ServerVring) : (server.setVring i v).vring i = v := by
  simp [VhostServer.setVring]

theorem setVring_of_ne (server : VhostServer) {i j : Nat} (v : ServerVring) (h : j ≠ i)
    : (server.setVring i v).vring j = server.vring j := by
  rw [VhostServer.setVring]
  dsimp only
  rw [Function.update_of_ne h]

/-- A step of the client on the ring for sending. -/
theorem projects_clientPut {call : PutCall} (h : s.clientPut env call = .ok (t, e))
    : t.rx = s.rx ∧ (txRing env).step s.tx (.put call) = .ok (t.tx, e) := by
  rcases clientPut_cases h with ⟨v, p, hput, rfl⟩
  constructor
  . simp [System.rx, System.setShm, vhostClientVringIdxTx, vhostClientVringIdxRx]
  . have hstep : (txRing env).step s.tx (.put call) = .ok ({ s.tx with shm := v, put := p }, e) := ring_step_put hput
    rw [hstep]
    simp [System.tx, System.setShm]

theorem projects_clientGet (h : s.clientGet env = .ok (t, e))
    : t.tx = s.tx ∧ (rxRing env).step s.rx .get = .ok (t.rx, e) := by
  rcases clientGet_cases h with ⟨v, g, hget, rfl⟩
  constructor
  . simp [System.tx, System.setShm, vhostClientVringIdxTx, vhostClientVringIdxRx]
  . have hstep : (rxRing env).step s.rx .get = .ok ({ s.rx with shm := v, get := g }, e) := ring_step_get hget
    rw [hstep]
    simp [System.rx, System.setShm]

theorem projects_serverGet (hok : env.Ok) (hl : Late env s.server) (h : s.serverGetStep env = .ok (t, e))
    : Late env t.server ∧ t.rx = s.rx ∧ (txRing env).step s.tx .get = .ok (t.tx, e) := by
  rcases serverGetStep_cases hok hl h with ⟨v, g, buffer, bufferSize, hget, rfl, _⟩
  have hl' := hl.setVring (q := g.vring) vhostClientVringIdxTx
  refine ⟨hl', ?_, ?_⟩
  . simp [System.rx, hl.ready hok, hl'.ready hok]
    simp [System.setShm, setVring_of_ne, vhostClientVringIdxTx, vhostClientVringIdxRx]
  . have htx : s.tx = { s.tx with
        get := { vring := (s.server.vring vhostClientVringIdxTx).vring, pc := s.serverGet } } := by
      simp [System.tx, hl.ready hok]
    have hstep : (txRing env).step s.tx .get = .ok ({ s.tx with shm := v, get := g }, e) := by
      rw [htx]
      exact ring_step_get hget
    rw [hstep]
    simp [System.tx, System.setShm, hl'.ready hok]

theorem projects_serverPut (hok : env.Ok) (hl : Late env s.server) (h : s.serverPutStep env = .ok (t, e))
    : Late env t.server ∧ t.tx = s.tx
      ∧ (rxRing env).step s.rx (.put (.putVring (s.buffer.take s.bufferSize.toNat))) = .ok (t.rx, e) := by
  rcases serverPutStep_cases hok hl h with ⟨v, p, hput, rfl⟩
  have hl' := hl.setVring (q := p.vring) vhostClientVringIdxRx
  refine ⟨hl', ?_, ?_⟩
  . simp [System.tx, hl.ready hok, hl'.ready hok]
    simp [System.setShm, setVring_of_ne, vhostClientVringIdxTx, vhostClientVringIdxRx]
  . have hrx : s.rx = { s.rx with
        put := { vring := (s.server.vring vhostClientVringIdxRx).vring, pc := s.serverPut } } := by
      simp [System.rx, hl.ready hok]
    have hstep : (rxRing env).step s.rx (.put (.putVring (s.buffer.take s.bufferSize.toNat)))
        = .ok ({ s.rx with shm := v, put := p }, e) := by
      rw [hrx]
      exact ring_step_put hput
    rw [hstep]
    simp [System.rx, System.setShm, hl'.ready hok]

end VhostUser
