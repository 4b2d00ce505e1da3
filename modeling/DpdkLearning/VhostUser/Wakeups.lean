import DpdkLearning.VhostUser.Echo

/-!
This module contains the proof that neither process is left asleep over a packet: whoever puts one tells the
other by the counter of an eventfd, and whoever reads the counter looks for packets afterwards. The server only
does so once it knows the ring.
-/

open Lib

namespace VhostUser

/--
There are packets that the taking side has not counted.
-/
def Ring.Pending (s : Ring) : Prop := s.get.vring.lastAvailIdx ≠ s.shm.availIdx

/--
The taking side has still to look at the available index before its call comes back.
-/
def Ring.Looks (s : Ring) : Prop := ∀ count, s.get.pc ≠ .finish count

/--
Once the server has begun to take packets, something makes it look for those that there are.
-/
def WokenTx (begun : Prop) (s : System) : Prop :=
  begun ∨ s.serverPc.taking = true → s.server.ready = true
    ∧ (s.tx.Pending → s.kicks vhostClientVringIdxTx ≠ 0 ∨ s.client.pc = .kick
      ∨ (s.serverPc.taking = true ∧ s.tx.Looks))

def WokenRx (s : System) : Prop :=
  s.rx.Pending → s.kicks vhostClientVringIdxRx ≠ 0 ∨ s.serverPc = .kick
    ∨ (s.client.pc = .processAvail ∧ s.rx.Looks)

/--
A call of the server for the ring for sending has come back.
-/
def Trace.begun (tr : Trace) : Prop := ∃ count, Event.processed count ∈ tr.onTx

variable {env : Env} {shm : Nat → VhostVring} {s t : System} {out : Out} {e : Event} {tr : Trace} {act : SystemAct}
  {begun begun' : Prop} {mapPut mapGet : UInt64 → Option Nat} {r r' : Ring} {call : PutCall}

/-- A call either comes back with what it had counted, or has still to look. -/
theorem Ring.pending_get (h : (ring mapPut mapGet).step r .get = .ok (r', e))
    : (∀ count, e = .processed count → (r'.Pending → r.Pending) ∧ ¬r.Looks)
      ∧ ((∀ count, e ≠ .processed count) → r'.Pending → r'.Looks) := by
  rcases ring_step_cases h with ⟨_, _, _, hact, _⟩ | ⟨v, g, _, hget, rfl⟩
  . cases hact
  rcases getStep_cases hget with ⟨_, havail, hstop, hback⟩
  constructor
  . rintro count rfl
    rcases hback ⟨count, rfl⟩ with ⟨hvring, count', hpc⟩
    constructor
    . intro hpending
      rw [Ring.Pending, hvring, havail] at hpending
      exact hpending
    . intro hlooks
      exact hlooks count' hpc
  . intro _ hpending count hpc
    exact hpending (hstop ⟨count, hpc⟩)

theorem Ring.pending_put (h : (ring mapPut mapGet).step r (.put call) = .ok (r', e))
    : r'.get = r.get ∧ ((∀ aIdx buf, e ≠ .accepted aIdx buf) → r'.Pending → r.Pending) := by
  rcases ring_step_cases h with ⟨call, v, p, hact, hput, rfl⟩ | ⟨_, _, hact, _⟩
  . refine ⟨rfl, ?_⟩
    intro hne hpending
    rcases (putStep_cases hput).2.2.1 with ⟨_, havail⟩ | ⟨⟨aIdx, buf, _, heq⟩, _⟩
    . rw [Ring.Pending, havail] at hpending
      exact hpending
    . exact absurd heq (hne aIdx buf)
  . cases hact

namespace WokenTx

/-- What has nothing to do with the ring for sending keeps what is said of it. -/
theorem keep (h : WokenTx begun s) (htx : t.tx = s.tx) (hready : s.server.ready = true → t.server.ready = true)
    (hkicks : t.kicks vhostClientVringIdxTx = s.kicks vhostClientVringIdxTx)
    (hclient : s.client.pc = .kick → t.client.pc = .kick) (htaking : t.serverPc.taking = s.serverPc.taking)
    : WokenTx begun t := by
  intro hbegun
  rw [htaking] at hbegun
  rcases h hbegun with ⟨hs, hwoken⟩
  refine ⟨hready hs, ?_⟩
  rw [htx, hkicks, htaking]
  intro hpending
  rcases hwoken hpending with hkick | hpc | hlooks
  . exact .inl hkick
  . exact .inr (.inl (hclient hpc))
  . exact .inr (.inr hlooks)

theorem mono (h : WokenTx begun s) (hbegun : begun' → begun) : WokenTx begun' s :=
  fun hnow => h (hnow.imp_left hbegun)

theorem of_server (hok : env.Ok) (hcontrol : Control env s) (hcalls : Calls s) (h : WokenTx begun s)
    (hmove : ServerMove env s t out) (hproj : Projects env s t out)
    : WokenTx (begun ∨ ∃ count, out = .tx (.processed count)) t := by
  have hquiet : (begun ∨ ∃ count, Out.quiet = .tx (.processed count)) → begun :=
    fun hbegun => hbegun.resolve_right (by simp)
  cases hmove with
  | walk pc hs hpc _ =>
    apply (h.mono hquiet).keep hproj.1 id rfl id
    exact (ServerPc.not_taking hpc).trans (ServerPc.not_taking hs).symm
  | receive stack pc t out hs hpc _ hstep =>
    rcases receiveSock_frame hstep with ⟨⟨toServer, toClient, server, serverPc, ht, hserverPc⟩, htx, _⟩
    have hsame : t.tx = s.tx := by
      cases out with
      | tx _ => cases htx
      | rx _ => exact hproj.1
      | _ => exact hproj.1
    have hready : s.server.ready = true → t.server.ready = true := by
      intro hready
      rcases hcontrol with ⟨j, k, hstage⟩
      rw [receiveSock_ready hstage hready] at hstep
      cases hstep
      exact hready
    have htaking : t.serverPc.taking = s.serverPc.taking := by
      rw [ht]
      rcases hserverPc with rfl | rfl
      . rfl
      . exact (ServerPc.not_taking hpc).trans (ServerPc.not_taking hs).symm
    refine (h.mono ?_).keep hsame hready ?_ ?_ htaking
    . intro hbegun
      refine hbegun.resolve_right ?_
      rintro ⟨_, rfl⟩
      cases htx
    . rw [ht]
    . rw [ht]
      exact id
  | ignore pc hs hpc _ hi =>
    rintro (hbegun | htaking)
    . rcases h (.inl (hquiet hbegun)) with ⟨hready, hwoken⟩
      rcases hi with hzero | hnot
      . refine ⟨hready, ?_⟩
        intro hpending
        rw [hproj.1] at hpending
        rcases hwoken hpending with hkick | hclient | ⟨htaking, _⟩
        . exact absurd hzero hkick
        . exact .inr (.inl hclient)
        . exact absurd (htaking.symm.trans (ServerPc.not_taking hs)) Bool.noConfusion
      . exact absurd (hready.symm.trans hnot) Bool.noConfusion
    . exact absurd (htaking.symm.trans (ServerPc.not_taking hpc)) Bool.noConfusion
  | read idx ready hs _ hready =>
    intro _
    refine ⟨hready, ?_⟩
    intro _
    -- The call begins after the counter is read.
    refine .inr (.inr ⟨rfl, ?_⟩)
    intro count hpc
    rw [hproj.1, System.tx, hready] at hpc
    have hidle := hcalls.get_idle (ServerPc.early_of_before hs)
    cases hidle.symm.trans hpc
  | get u e pc hs hstep hpc =>
    have hl := hcontrol.late (ServerPc.not_early hs).1
    rcases projects_serverGet hok hl hstep with ⟨hl', _, hring⟩
    have hsame : u.kicks = s.kicks ∧ u.client = s.client := by
      rcases serverGetStep_cases hok hl hstep with ⟨_, _, _, _, _, rfl, _⟩
      exact ⟨rfl, rfl⟩
    rcases Ring.pending_get hring with ⟨hback, hon⟩
    intro _
    refine ⟨hl'.ready hok, ?_⟩
    intro hpending
    have hpending' : u.tx.Pending := hpending
    rcases hpc with ⟨_, _, count, rfl⟩ | ⟨rfl, hne⟩
    . rcases hback count rfl with ⟨hkept, hnotLooks⟩
      rcases (h (.inr hs)).2 (hkept hpending') with hkick | hclient | ⟨_, hlooks⟩
      . exact .inl (hsame.1 ▸ hkick)
      . exact .inr (.inl (hsame.2 ▸ hclient))
      . exact absurd hlooks hnotLooks
    . exact .inr (.inr ⟨hs, hon hne hpending'⟩)
  | answer hs _ =>
    apply (h.mono hquiet).keep hproj.1 id rfl id
    rw [hs]
    rfl
  | put u e pc hs hstep hpc =>
    have hl := hcontrol.late (by rw [hs]; rfl)
    have hready := (projects_serverPut hok hl hstep).1.ready hok
    have hsame : u.kicks = s.kicks ∧ u.client = s.client := by
      rcases serverPutStep_cases hok hl hstep with ⟨_, _, _, rfl⟩
      exact ⟨rfl, rfl⟩
    have hbegun : (begun ∨ ∃ count, Out.rx e = .tx (.processed count)) → begun :=
      fun hbegun => hbegun.resolve_right (by simp)
    apply (h.mono hbegun).keep hproj.1 (fun _ => hready) (congrFun hsame.1 _)
    . intro hclient
      exact hsame.2 ▸ hclient
    . rw [hs]
      rcases hpc with ⟨rfl, _⟩ | ⟨rfl, _⟩
      . rfl
      . rfl
  | kick hs =>
    have hkicks : (s.signal vhostClientVringIdxRx).kicks vhostClientVringIdxTx = s.kicks vhostClientVringIdxTx :=
      s.signal_of_ne (by decide)
    apply (h.mono hquiet).keep hproj.1 id hkicks id
    rw [hs]
    rfl
  | clear hs =>
    apply (h.mono hquiet).keep hproj.1 id rfl id
    rw [hs]
    rfl

theorem of_client (hcalls : Calls s) (h : WokenTx begun s) (hmove : ClientMove env s t out)
    (hproj : Projects env s t out) : WokenTx (begun ∨ ∃ count, out = .tx (.processed count)) t := by
  have hquiet : (begun ∨ ∃ count, Out.quiet = .tx (.processed count)) → begun :=
    fun hbegun => hbegun.resolve_right (by simp)
  have hnot : ∀ {pc pc' : ClientPc}, s.client.pc = pc → pc ≠ .kick → s.client.pc = .kick → pc' = .kick := by
    intro pc pc' hs hne hkick
    exact absurd (hs.symm.trans hkick) hne
  -- A call on the ring for sending, by which nothing comes to be there but before a kick.
  have hput : ∀ {call : PutCall} {u : System} {e : Event} {pc : ClientPc}, s.clientPut env call = .ok (u, e)
      → s.client.pc ≠ .kick → ((∀ aIdx buf, e ≠ .accepted aIdx buf) ∨ pc = .kick)
      → WokenTx (begun ∨ ∃ count, Out.tx e = .tx (.processed count)) (u.setClientPc pc) := by
    intro call u e pc hstep hne hcase
    rcases projects_clientPut hstep with ⟨_, hring⟩
    rcases Ring.pending_put hring with ⟨hget, hpend⟩
    have hsame : u.kicks = s.kicks ∧ u.server = s.server ∧ u.serverPc = s.serverPc
        ∧ ∀ count, e ≠ .processed count := by
      rcases clientPut_cases hstep with ⟨_, _, hput, rfl⟩
      exact ⟨rfl, rfl, rfl, (putStep_cases hput).1.ne_processed⟩
    rcases hsame with ⟨hkicks, hserver, hserverPc, hnone⟩
    intro hbegun
    have hbegun' : begun ∨ s.serverPc.taking = true := by
      rcases hbegun with (hbegun | ⟨count, heq⟩) | htaking
      . exact .inl hbegun
      . cases heq
        exact absurd rfl (hnone count)
      . exact .inr (hserverPc ▸ htaking)
    rcases h hbegun' with ⟨hready, hwoken⟩
    refine ⟨hserver.symm ▸ hready, ?_⟩
    intro hpending
    have hpending' : u.tx.Pending := hpending
    rcases hcase with hno | rfl
    . rcases hwoken (hpend hno hpending') with hkick | hclient | ⟨htaking, hlooks⟩
      . exact .inl (hkicks.symm ▸ hkick)
      . exact absurd hclient hne
      . refine .inr (.inr ⟨hserverPc.symm ▸ htaking, ?_⟩)
        intro count hpc
        exact hlooks count ((congrArg GetSide.pc hget).symm.trans hpc)
    . exact .inr (.inl rfl)
  cases hmove with
  | send io todo msg fds hs _ => exact (h.mono hquiet).keep hproj.1 id rfl (hnot hs nofun) rfl
  | reply todo io msg t out hs hstep =>
    rcases clientReply_frame hstep with ⟨rfl, toClient, pc, features, rfl, _⟩
    exact (h.mono hquiet).keep hproj.1 id rfl (hnot hs nofun) rfl
  | begin hs => exact (h.mono hquiet).keep hproj.1 id rfl (hnot hs nofun) rfl
  | walk pc hs _ _ _ =>
    rcases hs with hs | hs
    . exact (h.mono hquiet).keep hproj.1 id rfl (hnot hs nofun) rfl
    . exact (h.mono hquiet).keep hproj.1 id rfl (hnot hs nofun) rfl
  | read hs _ =>
    have hkicks : (s.setKicks vhostClientVringIdxRx 0).kicks vhostClientVringIdxTx = s.kicks vhostClientVringIdxTx :=
      s.setKicks_of_ne 0 (by decide)
    exact (h.mono hquiet).keep hproj.1 id hkicks (hnot hs nofun) rfl
  | get u e pc hs hstep _ =>
    have hsame : u.kicks = s.kicks ∧ u.server = s.server ∧ u.serverPc = s.serverPc := by
      rcases clientGet_cases hstep with ⟨_, _, _, rfl⟩
      exact ⟨rfl, rfl, rfl⟩
    rcases hsame with ⟨hkicks, hserver, hserverPc⟩
    have hbegun : (begun ∨ ∃ count, Out.rx e = .tx (.processed count)) → begun :=
      fun hbegun => hbegun.resolve_right (by simp)
    apply (h.mono hbegun).keep hproj.1 _ (congrFun hkicks _) (hnot hs nofun)
    . exact congrArg ServerPc.taking hserverPc
    . intro hready
      exact hserver.symm ▸ hready
  | used u e pc hs hstep _ =>
    apply hput hstep (by rw [hs]; nofun)
    have hclientPut := hcalls.clientPut
    rw [hs] at hclientPut
    rcases clientPut_cases hstep with ⟨_, _, hring, _⟩
    exact .inl ((putStep_cases hring).1.uses hclientPut).1
  | put p u e pc hs hstep hpc =>
    apply hput hstep (by rw [hs]; nofun)
    rcases hpc with ⟨rfl, _⟩ | ⟨_, rfl⟩ | ⟨_, hne, _⟩
    . exact .inr rfl
    . exact .inl nofun
    . exact .inl hne
  | kick _ =>
    intro hbegun
    rcases h (hbegun.imp_left hquiet) with ⟨hready, _⟩
    have hkick : (s.signal vhostClientVringIdxTx).kicks vhostClientVringIdxTx ≠ 0 := s.signal_ne_zero _
    exact ⟨hready, fun _ => .inl hkick⟩

end WokenTx

namespace WokenRx

theorem keep (h : WokenRx s) (hrx : t.rx = s.rx)
    (hkicks : t.kicks vhostClientVringIdxRx = s.kicks vhostClientVringIdxRx)
    (hserver : s.serverPc = .kick → t.serverPc = .kick)
    (hclient : s.client.pc = .processAvail → t.client.pc = .processAvail) : WokenRx t := by
  intro hpending
  rw [hrx] at hpending ⊢
  rw [hkicks]
  rcases h hpending with hkick | hpc | ⟨hpc, hlooks⟩
  . exact .inl hkick
  . exact .inr (.inl (hserver hpc))
  . exact .inr (.inr ⟨hclient hpc, hlooks⟩)

theorem of_server (hok : env.Ok) (hcontrol : Control env s) (h : WokenRx s) (hmove : ServerMove env s t out)
    (hproj : Projects env s t out) : WokenRx t := by
  have hnot : ∀ {pc pc' : ServerPc}, s.serverPc = pc → pc ≠ .kick → s.serverPc = .kick → pc' = .kick := by
    intro pc pc' hs hne hkick
    exact absurd (hs.symm.trans hkick) hne
  have hearly : ∀ {pc' : ServerPc}, s.serverPc.early = true → s.serverPc = .kick → pc' = .kick := by
    intro pc' hs hkick
    rw [hkick] at hs
    cases hs
  cases hmove with
  | walk pc hs _ _ => exact h.keep hproj.2 rfl (hearly hs) id
  | receive stack pc t out hs _ _ hstep =>
    rcases receiveSock_frame hstep with ⟨⟨toServer, toClient, server, serverPc, ht, _⟩, _, hrx⟩
    have hsame : t.rx = s.rx := by
      cases out with
      | tx _ => exact hproj.1
      | rx _ => cases hrx
      | _ => exact hproj.2
    apply h.keep hsame
    . rw [ht]
    . exact hearly hs
    . rw [ht]
      exact id
  | ignore pc hs _ _ _ =>
    have hkicks : (s.setKicks vhostClientVringIdxTx 0).kicks vhostClientVringIdxRx = s.kicks vhostClientVringIdxRx :=
      s.setKicks_of_ne 0 (by decide)
    exact h.keep hproj.2 hkicks (hearly hs) id
  | read idx ready hs _ _ =>
    have hkicks : (s.setKicks vhostClientVringIdxTx 0).kicks vhostClientVringIdxRx = s.kicks vhostClientVringIdxRx :=
      s.setKicks_of_ne 0 (by decide)
    exact h.keep hproj.2 hkicks (hearly (ServerPc.early_of_before hs)) id
  | get u e pc hs hstep _ =>
    have hl := hcontrol.late (ServerPc.not_early hs).1
    have hsame : u.kicks = s.kicks ∧ u.client = s.client := by
      rcases serverGetStep_cases hok hl hstep with ⟨_, _, _, _, _, rfl, _⟩
      exact ⟨rfl, rfl⟩
    apply h.keep hproj.1 (congrFun hsame.1 _)
    . intro hkick
      rw [hkick] at hs
      cases hs
    . intro hclient
      exact hsame.2 ▸ hclient
  | answer hs _ => exact h.keep hproj.2 rfl (hnot hs nofun) id
  | put u e pc hs hstep hpc =>
    have hl := hcontrol.late (by rw [hs]; rfl)
    rcases Ring.pending_put (projects_serverPut hok hl hstep).2.2 with ⟨hget, hpend⟩
    have hsame : u.kicks = s.kicks ∧ u.client = s.client := by
      rcases serverPutStep_cases hok hl hstep with ⟨_, _, _, rfl⟩
      exact ⟨rfl, rfl⟩
    intro hpending
    have hpending' : u.rx.Pending := hpending
    rcases hpc with ⟨rfl, _⟩ | ⟨_, hne, _⟩
    . exact .inr (.inl rfl)
    . rcases h (hpend hne hpending') with hkick | hserver | ⟨hclient, hlooks⟩
      . exact .inl (hsame.1.symm ▸ hkick)
      . exact absurd (hs.symm.trans hserver) nofun
      . refine .inr (.inr ⟨hsame.2.symm ▸ hclient, ?_⟩)
        intro count hpc
        exact hlooks count ((congrArg GetSide.pc hget).symm.trans hpc)
  | kick _ =>
    intro _
    have hkick : (s.signal vhostClientVringIdxRx).kicks vhostClientVringIdxRx ≠ 0 := s.signal_ne_zero _
    exact .inl hkick
  | clear hs => exact h.keep hproj.2 rfl (hnot hs nofun) id

theorem of_client (hcalls : Calls s) (h : WokenRx s) (hmove : ClientMove env s t out) (hproj : Projects env s t out)
    : WokenRx t := by
  have hnot : ∀ {pc pc' : ClientPc}, s.client.pc = pc → pc ≠ .processAvail → s.client.pc = .processAvail
      → pc' = .processAvail := by
    intro pc pc' hs hne hpc
    exact absurd (hs.symm.trans hpc) hne
  have hput : ∀ {call : PutCall} {u : System} {e : Event} {pc : ClientPc}, s.clientPut env call = .ok (u, e)
      → s.client.pc ≠ .processAvail → Projects env s (u.setClientPc pc) (.tx e) → WokenRx (u.setClientPc pc) := by
    intro call u e pc hstep hne hproj
    have hsame : u.kicks = s.kicks ∧ u.serverPc = s.serverPc := by
      rcases clientPut_cases hstep with ⟨_, _, _, rfl⟩
      exact ⟨rfl, rfl⟩
    exact h.keep hproj.1 (congrFun hsame.1 _) (fun hkick => hsame.2.trans hkick) (fun hpc => absurd hpc hne)
  cases hmove with
  | send io todo msg fds hs _ => exact h.keep hproj.2 rfl id (hnot hs nofun)
  | reply todo io msg t out hs hstep =>
    rcases clientReply_frame hstep with ⟨rfl, toClient, pc, features, rfl, _⟩
    exact h.keep hproj.2 rfl id (hnot hs nofun)
  | begin hs => exact h.keep hproj.2 rfl id (hnot hs nofun)
  | walk pc hs _ _ _ =>
    rcases hs with hs | hs
    . exact h.keep hproj.2 rfl id (hnot hs nofun)
    . exact h.keep hproj.2 rfl id (hnot hs nofun)
  | read hs _ =>
    -- The call begins after the counter is read.
    have hidle := hcalls.clientGet (by rw [hs]; nofun)
    intro _
    refine .inr (.inr ⟨rfl, ?_⟩)
    intro count hpc
    cases hidle.symm.trans hpc
  | get u e pc hs hstep hpc =>
    rcases Ring.pending_get (projects_clientGet hstep).2 with ⟨hback, hon⟩
    have hsame : u.kicks = s.kicks ∧ u.serverPc = s.serverPc := by
      rcases clientGet_cases hstep with ⟨_, _, _, rfl⟩
      exact ⟨rfl, rfl⟩
    intro hpending
    have hpending' : u.rx.Pending := hpending
    rcases hpc with ⟨_, count, rfl⟩ | ⟨rfl, hne⟩
    . rcases hback count rfl with ⟨hkept, hnotLooks⟩
      rcases h (hkept hpending') with hkick | hserver | ⟨_, hlooks⟩
      . exact .inl (hsame.1.symm ▸ hkick)
      . exact .inr (.inl (hsame.2.trans hserver))
      . exact absurd hlooks hnotLooks
    . exact .inr (.inr ⟨rfl, hon hne hpending'⟩)
  | used u e pc hs hstep _ => exact hput hstep (by rw [hs]; nofun) hproj
  | put p u e pc hs hstep _ => exact hput hstep (by rw [hs]; nofun) hproj
  | kick hs =>
    have hkicks : (s.signal vhostClientVringIdxTx).kicks vhostClientVringIdxRx = s.kicks vhostClientVringIdxRx :=
      s.signal_of_ne (by decide)
    exact h.keep hproj.2 hkicks id (hnot hs nofun)

end WokenRx

/-- All has been delivered where the taking side has counted all. -/
theorem delivered_eq_of_not_pending {base : Nat} {v : VhostVring} {tr : List Step} (hbase : bufferAlignment ∣ base)
    (hput : Finds base mapPut) (hget : Finds base mapGet)
    (h : Machine.Run (ring mapPut mapGet) (.init (newVring base v)) tr r)
    (hshort : ∀ p ∈ accepted tr, p.length ≤ maxPacket) (hstuck : r.stuck = false) (hdone : ¬r.Pending)
    : delivered tr = accepted tr := by
  rcases ring_delivers hbase hput hget h hshort with ⟨_, _, htaken, hlen⟩
  rw [htaken hstuck, not_not.mp hdone, ← hlen, List.take_length]

theorem woken_of_run (hok : env.Ok) (h : Machine.Run (system env) (.init env shm) tr t)
    : WokenTx tr.begun t ∧ WokenRx t := by
  refine h.history (P := fun (tr : Trace) t => WokenTx tr.begun t ∧ WokenRx t) ⟨?_, ?_⟩ ?_
  . rintro (⟨_, hmem⟩ | htaking)
    . cases hmem
    . cases htaking
  . intro hpending
    rw [rx_init hok] at hpending
    exact absurd rfl hpending
  . rintro tr s act out t hrun ⟨htx, hrx⟩ hstep
    have hcontrol := control_of_run hok hrun
    have hcalls := calls_of_run hok hrun
    rcases control_step hok hcontrol hstep with ⟨hmove, _, hproj⟩
    have hbegun : Trace.begun (tr ++ [⟨s, act, out, t⟩]) → Trace.begun tr ∨ ∃ count, out = .tx (.processed count) := by
      rintro ⟨count, hmem⟩
      rw [Trace.onTx_concat, List.mem_append] at hmem
      rcases hmem with hmem | hmem
      . exact .inl ⟨count, hmem⟩
      . refine .inr ⟨count, ?_⟩
        cases out with
        | tx e =>
          cases List.mem_singleton.mp hmem
          rfl
        | _ => cases hmem
    rcases hmove with hmove | hmove
    . exact ⟨(htx.of_server hok hcontrol hcalls hmove hproj).mono hbegun, hrx.of_server hok hcontrol hmove hproj⟩
    . exact ⟨(htx.of_client hcalls hmove hproj).mono hbegun, hrx.of_client hcalls hmove hproj⟩

/--
In every run of the two processes, with their handshake and whichever of them goes on when, in which the client
sends packets of at most 1507 bytes, no packet is left behind: with no kick to be read or still to come and
no call under way, the handler of the client has got all that the server has sent back, and the handler of the
server all that the client has sent. For the server this holds from the end of its first call on, as a kick that
it reads before it knows the ring is lost.
-/
theorem no_wakeup_lost (hok : env.Ok) (h : Machine.Run (system env) (.init env shm) tr t)
    (hshort : ∀ p ∈ tr.sent, p.length ≤ maxPacket)
    : (t.kicks vhostClientVringIdxRx = 0 → t.serverPc ≠ .kick → t.client.pc ≠ .processAvail → tr.got = tr.answered)
      ∧ (tr.begun → t.kicks vhostClientVringIdxTx = 0 → t.client.pc ≠ .kick → t.serverPc.taking = false
        → t.tx.stuck = false → tr.arrived = tr.sent) := by
  rcases woken_of_run hok h with ⟨htx, hrx⟩
  constructor
  . intro hzero hserver hclient
    have hdone : ¬t.rx.Pending := by
      intro hpending
      rcases hrx hpending with hkick | hpc | ⟨hpc, _⟩
      . exact hkick hzero
      . exact hserver hpc
      . exact hclient hpc
    have hstuck := (calls_of_run hok h).rx_not_stuck
    have hback := answered_short hok h hshort
    rcases rx_of_run hok h with ⟨tr', hrun, _, haccepted, hdelivered⟩
    rw [← haccepted] at hback
    rw [← haccepted, ← hdelivered]
    exact delivered_eq_of_not_pending (hok.aligned _ (by decide)) (Env.finds_mapHandler hok (by decide))
      (Env.finds_clientMap hok (by decide)) hrun hback hstuck hdone
  . intro hbegun hzero hclient htaking hstuck
    have hdone : ¬t.tx.Pending := by
      intro hpending
      rcases (htx (.inl hbegun)).2 hpending with hkick | hpc | ⟨hpc, _⟩
      . exact hkick hzero
      . exact hclient hpc
      . exact absurd (hpc.symm.trans htaking) Bool.noConfusion
    rcases tx_of_run hok h with ⟨tr', hrun, _, haccepted, hdelivered⟩
    rw [← haccepted] at hshort
    rw [← haccepted, ← hdelivered]
    exact delivered_eq_of_not_pending (hok.aligned _ (by decide)) (Env.finds_clientMap hok (by decide))
      (Env.finds_mapHandler hok (by decide)) hrun hshort hstuck hdone

/-- A packet is sent and comes back, and both processes wait. -/
theorem no_wakeup_lost_one
    : ∃ tr t, Machine.Run (system plainEnv) (.init plainEnv (fun _ => blankShm)) tr t
      ∧ Trace.arrived tr = [[1, 2]] ∧ Trace.got tr = [[1, 2]] := by
  rcases exists_plain_run
    with ⟨tr, t, hrun, hsent, hanswered, hbegun, hrx, htx, hclient, hpc, hstuck⟩
  have hshort : ∀ p ∈ Trace.sent tr, p.length ≤ maxPacket := by
    rw [hsent]
    decide
  rcases no_wakeup_lost plainEnv_ok hrun hshort with ⟨hgot, harrived⟩
  refine ⟨tr, t, hrun, ?_, ?_⟩
  . rw [← hsent]
    exact harrived ⟨1, hbegun⟩ htx (by rw [hclient]; nofun) (by rw [hpc]; rfl) hstuck
  . rw [← hanswered]
    exact hgot hrx (by rw [hpc]; nofun) (by rw [hclient]; nofun)

/-- A kick that the server reads before it knows the ring is lost, and the packet stays in the ring. -/
theorem exists_wakeup_lost
    : ∃ tr t, Machine.Run (system plainEnv) (.init plainEnv (fun _ => blankShm)) tr t
      ∧ t.server.ready = true ∧ t.kicks vhostClientVringIdxTx = 0 ∧ t.client.pc = .traverse
      ∧ t.serverPc.taking = false ∧ t.tx.stuck = false
      ∧ Trace.sent tr = [[1, 2]] ∧ Trace.arrived tr = [] := by
  have hcheck : (system plainEnv).check plainSystem (plainActs 123 9 30 0)
      (fun tr t => t.server.ready && decide (t.kicks vhostClientVringIdxTx = 0)
        && (match t.client.pc with | .traverse => true | _ => false) && !t.serverPc.taking && !t.tx.stuck
        && decide (Trace.sent tr = [[1, 2]]) && decide (Trace.arrived tr = [])) = true := by
    decide +kernel
  rcases Machine.exists_run_of_check hcheck with ⟨tr, t, hrun, _, htest⟩
  rw [← plainSystem_eq] at hrun
  simp only [Bool.and_eq_true, decide_eq_true_eq, Bool.not_eq_true'] at htest
  rcases htest with ⟨⟨⟨⟨⟨⟨hready, hkicks⟩, hclient⟩, htaking⟩, hstuck⟩, hsent⟩, harrived⟩
  refine ⟨tr, t, hrun, hready, hkicks, ?_, htaking, hstuck, hsent, harrived⟩
  split at hclient
  . next heq => exact heq
  . cases hclient

end VhostUser
