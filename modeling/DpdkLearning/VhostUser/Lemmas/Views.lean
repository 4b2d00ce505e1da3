import DpdkLearning.Lib.Simulation
import DpdkLearning.VhostUser.Delivery
import DpdkLearning.VhostUser.Lemmas.Steps

/-!
This module contains the runs of the two rings in a run of the two processes, and the packets that went through
each of them.
-/

open Lib

namespace VhostUser

abbrev Trace : Type := List (Edge System SystemAct Out)

namespace Trace

/--
What happened to the ring that the client puts packets into.
-/
def onTx (tr : Trace) : List Event := (tr.map Edge.out).filterMap Out.onTx

def onRx (tr : Trace) : List Event := (tr.map Edge.out).filterMap Out.onRx

/--
The packets that the client has sent.
-/
def sent (tr : Trace) : List (List UInt8) := Exchange.accepted (tr.onTx.flatMap Event.seen)

/--
The packets that the handler of the server was called with.
-/
def arrived (tr : Trace) : List (List UInt8) := Exchange.delivered (tr.onTx.flatMap Event.seen)

/--
The packets that the server has sent back.
-/
def answered (tr : Trace) : List (List UInt8) := Exchange.accepted (tr.onRx.flatMap Event.seen)

/--
The packets that the handler of the client was called with.
-/
def got (tr : Trace) : List (List UInt8) := Exchange.delivered (tr.onRx.flatMap Event.seen)

variable {tr : Trace} {s t : System} {act : SystemAct} {out : Out}

theorem onTx_concat : onTx (tr ++ [⟨s, act, out, t⟩]) = tr.onTx ++ out.onTx.toList := by
  rw [onTx, onTx, List.map_append, List.filterMap_append]
  cases out with
  | tx e => rfl
  | _ => rfl

theorem onRx_concat : onRx (tr ++ [⟨s, act, out, t⟩]) = tr.onRx ++ out.onRx.toList := by
  rw [onRx, onRx, List.map_append, List.filterMap_append]
  cases out with
  | rx e => rfl
  | _ => rfl

theorem answered_concat
    : answered (tr ++ [⟨s, act, out, t⟩]) = tr.answered ++ Exchange.accepted (out.onRx.toList.flatMap Event.seen) := by
  rw [answered, onRx_concat, List.flatMap_append, Exchange.accepted_append]
  rfl

end Trace

variable {env : Env} {shm : Nat → VhostVring} {s t : System} {tr : Trace}

/-- The packets of a run of a ring, told by what it shows. -/
theorem seen_eq (tr : List Step) : seen tr = (tr.map Edge.out).flatMap Event.seen := by
  rw [seen, List.flatMap_map]

theorem tx_init (hok : env.Ok)
    : (System.init env shm).tx
        = .init (newVring (env.shm vhostClientVringIdxTx).toNat (shm vhostClientVringIdxTx)) := by
  have hready : (newVhostServer env.listenSock env.sock).ready = false := by
    rw [Env.newVhostServer_eq hok]
    exact stage_not_ready (by decide)
  rw [System.tx, System.init]
  dsimp only
  rw [hready]
  rfl

theorem rx_init (hok : env.Ok)
    : (System.init env shm).rx
        = .init (newVring (env.shm vhostClientVringIdxRx).toNat (shm vhostClientVringIdxRx)) := by
  have hready : (newVhostServer env.listenSock env.sock).ready = false := by
    rw [Env.newVhostServer_eq hok]
    exact stage_not_ready (by decide)
  rw [System.rx, System.init]
  dsimp only
  rw [hready]
  rfl

theorem control_of_run (hok : env.Ok) (h : Machine.Run (system env) (.init env shm) tr t) : Control env t := by
  apply h.invariant (control_init hok)
  intro s act out t hcontrol hstep
  exact (control_step hok hcontrol hstep).2.1

/-- In a run of the two processes the ring for sending makes a run of its own, whichever of them goes on when. -/
theorem tx_of_run (hok : env.Ok) (h : Machine.Run (system env) (.init env shm) tr t)
    : ∃ tr', Machine.Run (txRing env)
        (.init (newVring (env.shm vhostClientVringIdxTx).toNat (shm vhostClientVringIdxTx))) tr' t.tx
      ∧ tr'.map Edge.out = tr.onTx ∧ accepted tr' = tr.sent ∧ delivered tr' = tr.arrived := by
  have hrun : ∃ tr', Machine.Run (txRing env) (System.init env shm).tx tr' t.tx ∧ tr'.map Edge.out = tr.onTx := by
    refine h.projects (I := Control env) (control_init hok) ?_ ?_ ?_
    . intro s act out t hcontrol hstep hquiet
      have hproj := (control_step hok hcontrol hstep).2.2
      cases out with
      | tx e => cases hquiet
      | rx e => exact hproj.1
      | _ => exact hproj.1
    . intro s act out t e hcontrol hstep hmove
      have hproj := (control_step hok hcontrol hstep).2.2
      cases out with
      | tx e' =>
        cases hmove
        exact hproj.2
      | _ => cases hmove
    . intro s act out t hcontrol hstep
      exact (control_step hok hcontrol hstep).2.1
  rcases hrun with ⟨tr', hrun, houts⟩
  rw [tx_init hok] at hrun
  refine ⟨tr', hrun, houts, ?_, ?_⟩
  . rw [accepted, seen_eq, houts, Trace.sent]
  . rw [delivered, seen_eq, houts, Trace.arrived]

/-- And so does the ring for receiving. -/
theorem rx_of_run (hok : env.Ok) (h : Machine.Run (system env) (.init env shm) tr t)
    : ∃ tr', Machine.Run (rxRing env)
        (.init (newVring (env.shm vhostClientVringIdxRx).toNat (shm vhostClientVringIdxRx))) tr' t.rx
      ∧ tr'.map Edge.out = tr.onRx ∧ accepted tr' = tr.answered ∧ delivered tr' = tr.got := by
  have hrun : ∃ tr', Machine.Run (rxRing env) (System.init env shm).rx tr' t.rx ∧ tr'.map Edge.out = tr.onRx := by
    refine h.projects (I := Control env) (control_init hok) ?_ ?_ ?_
    . intro s act out t hcontrol hstep hquiet
      have hproj := (control_step hok hcontrol hstep).2.2
      cases out with
      | tx e => exact hproj.1
      | rx e => cases hquiet
      | _ => exact hproj.2
    . intro s act out t e hcontrol hstep hmove
      have hproj := (control_step hok hcontrol hstep).2.2
      cases out with
      | rx e' =>
        cases hmove
        exact hproj.2
      | _ => cases hmove
    . intro s act out t hcontrol hstep
      exact (control_step hok hcontrol hstep).2.1
  rcases hrun with ⟨tr', hrun, houts⟩
  rw [rx_init hok] at hrun
  refine ⟨tr', hrun, houts, ?_, ?_⟩
  . rw [accepted, seen_eq, houts, Trace.answered]
  . rw [delivered, seen_eq, houts, Trace.got]

/--
Addresses and descriptors for the two processes.
-/
def plainEnv : Env where
  shm i := if i = 0 then 0x10000000 else 0x20000000
  shmFds i := 5 + i
  kickfd i := 7 + 2 * i
  callfd i := 8 + 2 * i
  received fd := fd + 10
  mmap fd _ := if fd = 15 then 0x50000000 else 0x60000000
  listenSock := 3
  sock := 4

theorem plainEnv_ok : plainEnv.Ok where
  aligned := by decide
  shm := by decide
  shmApart := by decide
  serverShm := by decide
  serverShmApart := by decide
  shmFds := by decide
  kickfd := by decide
  callfd := by decide
  received := by
    intro fd hfd
    rw [plainEnv]
    dsimp only
    omega
  kickApart := by decide
  listenSock := by decide
  sock := by decide
  kickSock := by decide
  listenApart := by decide
  sockApart := by decide

/--
The two processes with blank shared memory, and what `new_vring` makes of it written out.
-/
def plainSystem : System :=
  { System.init plainEnv (fun _ => blankShm) with shm := fun i => freshVring (plainEnv.shm i).toNat blankShm }

theorem plainSystem_eq : System.init plainEnv (fun _ => blankShm) = plainSystem := by
  have hshm : (System.init plainEnv (fun _ => blankShm)).shm = fun i => freshVring (plainEnv.shm i).toNat blankShm := by
    funext i
    apply newVring_eq
    rw [plainEnv]
    dsimp only
    split
    . decide
    . decide
  rw [plainSystem, ← hshm]

/--
The client makes its requests while the server reads them, `n` steps long. It then takes `m` steps in its loop,
the server `n'` and the client again `m'`.
-/
def plainActs (n m n' m' : Nat) : List SystemAct :=
  let client := .client [1, 2]
  let server := .server { msg := { mem := fun _ => 0 }, fdNum := 0, fds := fun _ => 0 }
  List.replicate 2 client ++ List.replicate 17 server ++ List.replicate 13 client ++ List.replicate n server
    ++ List.replicate m client ++ List.replicate n' server ++ List.replicate m' client

/-- The client sends a packet and gets it back. -/
theorem exists_plain_run
    : ∃ tr t, Machine.Run (system plainEnv) (.init plainEnv (fun _ => blankShm)) tr t
      ∧ Trace.sent tr = [[1, 2]] ∧ Trace.answered tr = [[1, 2]] ∧ Event.processed 1 ∈ Trace.onTx tr
      ∧ t.kicks vhostClientVringIdxRx = 0 ∧ t.kicks vhostClientVringIdxTx = 0 ∧ t.client.pc = .processUsed
      ∧ t.serverPc = .traverse ∧ t.tx.stuck = false := by
  have hcheck : (system plainEnv).check plainSystem (plainActs 148 9 40 9)
      (fun tr t => decide (Trace.sent tr = [[1, 2]]) && decide (Trace.answered tr = [[1, 2]])
        && decide (Event.processed 1 ∈ Trace.onTx tr) && decide (t.kicks vhostClientVringIdxRx = 0)
        && decide (t.kicks vhostClientVringIdxTx = 0) && (match t.client.pc with | .processUsed => true | _ => false)
        && decide (t.serverPc = .traverse) && !t.tx.stuck) = true := by
    decide +kernel
  rcases Machine.exists_run_of_check hcheck with ⟨tr, t, hrun, _, htest⟩
  rw [← plainSystem_eq] at hrun
  simp only [Bool.and_eq_true, decide_eq_true_eq, Bool.not_eq_true'] at htest
  rcases htest with ⟨⟨⟨⟨⟨⟨⟨hsent, hanswered⟩, hbegun⟩, hrx⟩, htx⟩, hclient⟩, hpc⟩, hstuck⟩
  refine ⟨tr, t, hrun, hsent, hanswered, hbegun, hrx, htx, ?_, hpc, hstuck⟩
  split at hclient
  . next heq => exact heq
  . cases hclient

end VhostUser
