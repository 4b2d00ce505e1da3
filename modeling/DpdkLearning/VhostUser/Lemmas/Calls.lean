import DpdkLearning.VhostUser.Lemmas.Views

/-!
This module contains which calls for a ring are under way, from where the two processes are.
-/

open Lib

namespace VhostUser

/--
The packet that a call of `put_vring` is about.
-/
def PutPc.packet : PutPc → Option (List UInt8)
  | .copy _ _ buf => some buf
  | .describe _ buf => some buf
  | .offer _ buf => some buf
  | .publish _ buf => some buf
  | _ => none

/--
No call is under way, or one to put this packet.
-/
def PutPc.Puts (buf : List UInt8) (pc : PutPc) : Prop := pc = .idle ∨ pc.packet = some buf

/--
The packet that the server has in its buffer.
-/
def System.kept (s : System) : List UInt8 := s.buffer.take s.bufferSize.toNat

/--
What the client may be doing with the ring for sending.
-/
def ClientPc.Allows : ClientPc → PutPc → Prop
  | .processUsed, put => put.packet = none
  | .sendPacket, put => put = .idle ∨ put.packet ≠ none
  | _, put => put = .idle

/--
A call is only under way where the process has come to it.
-/
structure Calls (s : System) : Prop where
  clientPut : s.client.pc.Allows s.client.put
  clientGet : s.client.pc ≠ .processAvail → s.client.get = .idle
  serverGet : s.serverPc.taking = false → s.serverGet = .idle
  serverPut : s.serverPc ≠ .putVring → s.serverPut = .idle
  puts : s.serverPut.Puts s.kept

variable {env : Env} {shm : Nat → VhostVring} {s t : System} {out : Out} {e : Event} {call : PutCall} {tr : Trace}

namespace PutMove

variable {pc pc' : PutPc} {buf : List UInt8}

/-- Where a call to put a packet goes on, and how it ends. -/
theorem puts (h : PutMove (.putVring buf) pc pc' e) (hpc : pc.Puts buf)
    : (e = .quiet ∧ pc'.packet = some buf) ∨ (e = .refused ∧ pc = .idle ∧ pc' = .idle)
      ∨ ((∃ aIdx, e = .accepted aIdx buf) ∧ pc' = .idle) := by
  cases h with
  | refuse buf' _ => exact .inr (.inl ⟨rfl, rfl, rfl⟩)
  | take aIdx destBuf buf' hcall =>
    cases hcall
    exact .inl ⟨rfl, rfl⟩
  | publish aIdx buf' =>
    rcases hpc with hpc | hpc
    . cases hpc
    . cases hpc
      exact .inr (.inr ⟨⟨aIdx, rfl⟩, rfl⟩)
  | begin _ hcall => cases hcall
  | next _ _ =>
    rcases hpc with hpc | hpc
    . cases hpc
    . cases hpc
  | finish _ =>
    rcases hpc with hpc | hpc
    . cases hpc
    . cases hpc
  | _ =>
    rcases hpc with hpc | hpc
    . cases hpc
    . cases hpc
      exact .inl ⟨rfl, rfl⟩

/-- A call of `process_used_vring` goes on, or has come back. -/
theorem uses (h : PutMove .processUsedVring pc pc' e) (hpc : pc.packet = none)
    : (∀ aIdx buf, e ≠ .accepted aIdx buf) ∧ pc'.packet = none ∧ (e = .reclaimed → pc' = .idle) := by
  cases h with
  | refuse _ hcall => cases hcall
  | take _ _ _ hcall => cases hcall
  | begin uIdx _ => exact ⟨nofun, rfl, nofun⟩
  | next uIdx uIdx' => exact ⟨nofun, rfl, nofun⟩
  | finish uIdx => exact ⟨nofun, rfl, fun _ => rfl⟩
  | _ => cases hpc

/-- A call to put a packet that the client makes goes on, or has come back. -/
theorem sends {p : List UInt8} (h : PutMove (.putVring p) pc pc' e) (hpc : pc = .idle ∨ pc.packet ≠ none)
    : (pc' = .idle ∨ pc'.packet ≠ none) ∧ (∀ aIdx buf, e = .accepted aIdx buf → pc' = .idle)
      ∧ (e = .refused → pc' = .idle) := by
  cases h with
  | refuse _ _ => exact ⟨.inl rfl, nofun, fun _ => rfl⟩
  | publish aIdx buf => exact ⟨.inl rfl, fun _ _ _ => rfl, nofun⟩
  | begin _ hcall => cases hcall
  | next _ _ =>
    rcases hpc with hpc | hpc
    . cases hpc
    . exact absurd rfl hpc
  | finish _ => exact ⟨.inl rfl, nofun, nofun⟩
  | _ => exact ⟨.inr nofun, nofun, nofun⟩

end PutMove

namespace ServerPc

variable {pc : ServerPc}

theorem not_taking (h : pc.early = true) : pc.taking = false := by
  cases pc with
  | kicked _ _ => cases h
  | polling => cases h
  | _ => rfl

theorem ne_putVring (h : pc.early = true) : pc ≠ .putVring := by
  rintro rfl
  cases h

theorem early_of_before (h : pc.before = true) : pc.early = true := by
  cases pc with
  | traverse => rfl
  | nodes _ _ => rfl
  | _ => cases h

theorem not_early (h : pc.taking = true) : pc.early = false ∧ pc ≠ .putVring := by
  cases pc with
  | kicked _ _ => exact ⟨rfl, nofun⟩
  | polling => exact ⟨rfl, nofun⟩
  | _ => cases h

end ServerPc

/-- Where the server is not told of the rings, it knows all of them. -/
theorem Control.late (h : Control env s) (hpc : s.serverPc.early = false) : Late env s.server := by
  rcases h with ⟨j, k, hstage⟩
  exact hstage.late (hstage.of_pc hpc)

namespace Calls

theorem init : Calls (System.init env shm) where
  clientPut := rfl
  clientGet _ := rfl
  serverGet _ := rfl
  serverPut _ := rfl
  puts := .inl rfl

theorem get_idle (h : Calls s) (hpc : s.serverPc.early = true) : s.serverGet = .idle :=
  h.serverGet (ServerPc.not_taking hpc)

theorem put_idle (h : Calls s) (hpc : s.serverPc.early = true) : s.serverPut = .idle :=
  h.serverPut (ServerPc.ne_putVring hpc)

theorem of_server (hok : env.Ok) (hcontrol : Control env s) (h : Calls s) (hmove : ServerMove env s t out)
    : Calls t := by
  cases hmove with
  | walk pc hs hpc _ =>
    exact { h with serverGet := fun _ => h.get_idle hs, serverPut := fun _ => h.put_idle hs }
  | receive stack pc t out hs hpc _ hstep =>
    rcases (receiveSock_frame hstep).1 with ⟨_, _, _, _, rfl, _⟩
    exact { h with serverGet := fun _ => h.get_idle hs, serverPut := fun _ => h.put_idle hs }
  | ignore pc hs hpc _ _ =>
    exact { h with serverGet := fun _ => h.get_idle hs, serverPut := fun _ => h.put_idle hs }
  | read idx ready hs _ _ =>
    have hearly := ServerPc.early_of_before hs
    exact { h with serverGet := fun _ => h.get_idle hearly, serverPut := fun _ => h.put_idle hearly }
  | get u e pc hs hstep hpc =>
    rcases ServerPc.not_early hs with ⟨hearly, hne⟩
    have hput := h.serverPut hne
    rcases serverGetStep_cases hok (hcontrol.late hearly) hstep with ⟨v, g, buffer, bufferSize, hget, rfl, _⟩
    refine { h with serverGet := ?_, serverPut := fun _ => hput, puts := .inl hput }
    -- The call has come back where it has shown what it has processed.
    intro htaking
    rcases hpc with ⟨_, _, count, rfl⟩ | ⟨rfl, _⟩
    . exact (getStep_cases hget).1.of_processed
    . exact absurd (hs.symm.trans htaking) Bool.noConfusion
  | answer hs _ =>
    have hearly : s.serverPc.early = true := by
      rw [hs]
      rfl
    exact { h with serverGet := fun _ => h.get_idle hearly, serverPut := fun hne => absurd rfl hne }
  | put u e pc hs hstep hpc =>
    have htaking : s.serverPc.taking = false := by
      rw [hs]
      rfl
    rcases serverPutStep_cases hok (hcontrol.late (by rw [hs]; rfl)) hstep with ⟨v, p, hput, rfl⟩
    have hputs := (putStep_cases hput).1.puts h.puts
    refine { h with serverGet := fun _ => h.serverGet htaking, serverPut := ?_, puts := ?_ }
    . intro hne
      rcases hputs with ⟨rfl, _⟩ | ⟨_, _, hidle⟩ | ⟨_, hidle⟩
      . rcases hpc with ⟨_, ⟨_, _, heq⟩ | heq⟩ | ⟨rfl, _⟩
        . cases heq
        . cases heq
        . exact absurd rfl hne
      . exact hidle
      . exact hidle
    . rcases hputs with ⟨_, hpacket⟩ | ⟨_, _, hidle⟩ | ⟨_, hidle⟩
      . exact .inr hpacket
      . exact .inl hidle
      . exact .inl hidle
  | kick hs =>
    have hput := h.serverPut (by rw [hs]; nofun)
    have hget := h.serverGet (by rw [hs]; rfl)
    exact { h with serverGet := fun _ => hget, serverPut := fun _ => hput }
  | clear hs =>
    have hput := h.serverPut (by rw [hs]; nofun)
    have hget := h.serverGet (by rw [hs]; rfl)
    exact { h with serverGet := fun _ => hget, serverPut := fun _ => hput, puts := .inl hput }

theorem of_client (h : Calls s) (hmove : ClientMove env s t out) : Calls t := by
  have hclientPut := h.clientPut
  have hclientGet := h.clientGet
  cases hmove with
  | send io todo msg fds hs hioctl =>
    rw [hs] at hclientPut hclientGet
    refine { h with clientPut := ?_, clientGet := fun _ => hclientGet nofun }
    unfold System.setClientPc
    split
    . exact hclientPut
    . exact hclientPut
  | reply todo io msg t out hs hstep =>
    rcases (clientReply_frame hstep).2 with ⟨toClient, pc, features, rfl, rfl | rfl⟩
    . exact { h with }
    . rw [hs] at hclientPut hclientGet
      exact { h with clientPut := hclientPut, clientGet := fun _ => hclientGet nofun }
  | begin hs =>
    rw [hs] at hclientPut hclientGet
    exact { h with clientPut := hclientPut, clientGet := fun _ => hclientGet nofun }
  | walk pc hs hpc _ hwait =>
    have hidle : s.client.put = .idle ∧ s.client.get = .idle := by
      rcases hs with hs | hs
      . rw [hs] at hclientPut hclientGet
        exact ⟨hclientPut, hclientGet nofun⟩
      . rw [hs] at hclientPut hclientGet
        exact ⟨hclientPut, hclientGet nofun⟩
    refine { h with clientPut := ?_, clientGet := fun _ => hidle.2 }
    rcases hwait with rfl | rfl
    . exact hidle.1
    . exact congrArg PutPc.packet hidle.1
  | read hs _ =>
    rw [hs] at hclientPut
    exact { h with clientPut := hclientPut, clientGet := fun hne => absurd rfl hne }
  | get u e pc hs hstep hpc =>
    rw [hs] at hclientPut
    rcases clientGet_cases hstep with ⟨v, g, hget, rfl⟩
    rcases hpc with ⟨rfl, count, rfl⟩ | ⟨rfl, _⟩
    . exact { h with
        clientPut := congrArg PutPc.packet hclientPut
        clientGet := fun _ => (getStep_cases hget).1.of_processed }
    . exact { h with clientPut := hclientPut, clientGet := fun hne => absurd rfl hne }
  | used u e pc hs hstep hpc =>
    rw [hs] at hclientPut hclientGet
    rcases clientPut_cases hstep with ⟨v, p, hput, rfl⟩
    rcases (putStep_cases hput).1.uses hclientPut with ⟨_, hnone, hidle⟩
    rcases hpc with ⟨rfl, he⟩ | ⟨rfl, _⟩
    . exact { h with clientPut := .inl (hidle he), clientGet := fun _ => hclientGet nofun }
    . exact { h with clientPut := hnone, clientGet := fun _ => hclientGet nofun }
  | put p u e pc hs hstep hpc =>
    rw [hs] at hclientPut hclientGet
    rcases clientPut_cases hstep with ⟨v, p', hput, rfl⟩
    have hsends := (putStep_cases hput).1.sends hclientPut
    rcases hpc with ⟨rfl, _, _, he⟩ | ⟨rfl, he⟩ | ⟨rfl, hne, hne'⟩
    . exact { h with clientPut := hsends.2.1 _ _ he, clientGet := fun _ => hclientGet nofun }
    . exact { h with clientPut := hsends.2.2 he, clientGet := fun _ => hclientGet nofun }
    . exact { h with clientPut := hsends.1, clientGet := fun _ => hclientGet nofun }
  | kick hs =>
    rw [hs] at hclientPut hclientGet
    exact { h with clientPut := hclientPut, clientGet := fun _ => hclientGet nofun }

theorem of_moved (hok : env.Ok) (hcontrol : Control env s) (h : Calls s) (hmove : Moved env s t out) : Calls t := by
  rcases hmove with hmove | hmove
  . exact h.of_server hok hcontrol hmove
  . exact h.of_client hmove

end Calls

/-- The server never takes anything back, so that it does not get stuck. -/
theorem Calls.rx_not_stuck (h : Calls s) : s.rx.stuck = false := by
  have hpc : ∀ uIdx, s.rx.put.pc ≠ .reclaim uIdx := by
    intro uIdx
    rw [System.rx]
    dsimp only
    cases s.server.ready with
    | true =>
      intro heq
      rcases h.puts with hidle | hpacket
      . cases hidle.symm.trans heq
      . have hnone : s.serverPut.packet = none := congrArg PutPc.packet heq
        rw [hpacket] at hnone
        cases hnone
    | false => simp
  unfold Ring.stuck
  split
  . next uIdx heq => exact absurd heq (hpc uIdx)
  . rfl

theorem calls_of_run (hok : env.Ok) (h : Machine.Run (system env) (.init env shm) tr t) : Calls t := by
  have hboth : Control env t ∧ Calls t := by
    refine h.invariant (I := fun s => Control env s ∧ Calls s) ⟨control_init hok, .init⟩ ?_
    rintro s act out t ⟨hcontrol, hcalls⟩ hstep
    rcases control_step hok hcontrol hstep with ⟨hmove, hcontrol', _⟩
    exact ⟨hcontrol', hcalls.of_moved hok hcontrol hmove⟩
  exact hboth.2

end VhostUser
