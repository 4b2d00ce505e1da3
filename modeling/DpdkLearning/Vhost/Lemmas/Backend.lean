import DpdkLearning.Vhost.Impl.Backend

/-!
This module contains what one step of the backend can do.
-/

open Lib

namespace Vhost

abbrev BackendStep := Edge Backend Backend.Act Out

abbrev BackendRun := Machine.Run backendMachine

/--
What a message that is handled does.
-/
inductive Handled (env : Env) (b : Backend) (msg : Received) : Request → Backend → Out → Prop where
  | getFeatures {reply : Reply} (h : reply.num = b.vhostSupportedFeatrues)
      : Handled env b msg .getFeatures b { Out.quiet with reply := some reply }
  | setFeatures : Handled env b msg .setFeatures { b with vhostSupportedFeatrues := msg.num } .quiet
  | setOwner (h : env.malloc = true)
      : Handled env b msg .setOwner { b with virtiodev := some virtioDevZero } .quiet
  | setMemTable {dev : VhostDev} {dev' : VirtioDev} {ret : Int} (hdev : b.virtiodev = some dev)
      (h : vhostUserSetMemTable env dev.toVirtioDev msg.toMsg = .ok (ret, dev'))
      : Handled env b msg .setMemTable
          { b with virtiodev := some { dev with toVirtioDev := dev' } } .quiet
  | setVringAddr {dev : VhostDev} {qidx : Fin maxMultiQueue} {desc avail used : UInt64}
      (hdev : b.virtiodev = some dev) (hqidx : qidx.val = msg.stateIndex.toNat)
      (hdesc : dev.gvaToHva msg.addrDesc = .ok desc) (h : desc ≠ 0)
      : Handled env b msg .setVringAddr
          (b.setQueue dev qidx { dev.queue qidx with desc, avail, used }) .quiet
  | setVring {request : Request} {dev : VhostDev} {qidx : Fin maxMultiQueue} {vq : Virtqueue} {out : Out}
      (hrequest : request = .setVringNum ∨ request = .setVringBase
        ∨ request = .setVringKick ∨ request = .setVringCall)
      (hdev : b.virtiodev = some dev)
      (hvq : vq.desc = (dev.queue qidx).desc ∧ vq.avail = (dev.queue qidx).avail)
      : Handled env b msg request (b.setQueue dev qidx vq) out
  | other : Handled env b msg .other b .quiet

theorem withDev_eq_ok {α : Type} {b : Backend} {f : VhostDev → Except Misuse α} {r : α}
    (h : b.withDev f = .ok r) : ∃ dev, b.virtiodev = some dev ∧ f dev = .ok r := by
  unfold Backend.withDev at h
  split at h
  . contradiction
  . next dev hdev => exact ⟨dev, hdev, h⟩

theorem withQueue_eq_ok {α : Type} {b : Backend} {index : Nat}
    {f : VhostDev → Fin maxMultiQueue → Except Misuse α} {r : α} (h : b.withQueue index f = .ok r)
    : ∃ dev qidx, b.virtiodev = some dev ∧ qidx.val = index ∧ f dev qidx = .ok r := by
  rcases withDev_eq_ok h with ⟨dev, hdev, hf⟩
  split at hf
  . next hlt => exact ⟨dev, ⟨index, hlt⟩, hdev, rfl, hf⟩
  . contradiction

theorem bind_eq_ok {ε α β : Type} {x : Except ε α} {f : α → Except ε β} {r : β}
    (h : x >>= f = .ok r) : ∃ a, x = .ok a ∧ f a = .ok r := by
  cases x with
  | error e => contradiction
  | ok a => exact ⟨a, rfl, h⟩

theorem handled_of_handler {env : Env} {b b' : Backend} {msg : Received} {out : Out}
    (h : b.vhostUserMsgHandler env msg = .ok (b', out))
    : Handled env b msg (Request.ofCode msg.request.toNat) b' out := by
  unfold Backend.vhostUserMsgHandler at h
  generalize Request.ofCode msg.request.toNat = request at h ⊢
  cases request with
  | getFeatures =>
    cases h
    exact .getFeatures rfl
  | setFeatures =>
    cases h
    exact .setFeatures
  | other =>
    cases h
    exact .other
  | setOwner =>
    dsimp only at h
    split at h
    . next hmalloc =>
      cases h
      exact .setOwner hmalloc
    . contradiction
  | setMemTable =>
    rcases withDev_eq_ok h with ⟨dev, hdev, h⟩
    split at h
    . contradiction
    . next hset =>
      cases h
      exact .setMemTable hdev hset
  | setVringNum | setVringBase | setVringKick | setVringCall =>
    rcases withQueue_eq_ok h with ⟨dev, qidx, hdev, _, h⟩
    cases h
    exact .setVring (by simp) hdev ⟨rfl, rfl⟩
  | setVringAddr =>
    rcases withQueue_eq_ok h with ⟨dev, qidx, hdev, hqidx, h⟩
    rcases bind_eq_ok h with ⟨desc, hdesc, h⟩
    rcases bind_eq_ok h with ⟨avail, havail, h⟩
    rcases bind_eq_ok h with ⟨used, hused, h⟩
    split at h
    . contradiction
    . next hne =>
      cases h
      exact .setVringAddr hdev hqidx hdesc hne

/--
What a step of the backend does.
-/
inductive BackendStepped (b : Backend) : Backend.Act → Backend → Out → Prop where
  | message {env : Env} {msg : Received} {b' : Backend} {out : Out}
      (h : Handled env b msg (Request.ofCode msg.request.toNat) b' out)
      : BackendStepped b (.message env msg) b' out
  | guest {mem : SharedMem} : BackendStepped b (.guest mem) { b with mem } .quiet
  | waited {act : Backend.Act} (hact : (∃ newMbuf, act = .vhostTx newMbuf) ∨ ∃ pkt, act = .vhostRx pkt)
      (hdev : b.virtiodev = none)
      : BackendStepped b act b .quiet
  | tx {dev : VhostDev} {newMbuf : Bool} {burst : Burst} (hdev : b.virtiodev = some dev)
      (h : vhostTx (fun _ => newMbuf) dev b.mem 1 = .ok burst)
      : BackendStepped b (.vhostTx newMbuf)
          { b with virtiodev := some (dev.setQueue vhostTxQidx burst.vq), mem := burst.mem }
          { Out.quiet with burst := some burst }
  | rx {dev : VhostDev} {pkt : Mbuf} {burst : Burst} (hdev : b.virtiodev = some dev)
      (h : vhostRx dev b.mem vhostRxQidx (fun _ => pkt) 1 = .ok burst)
      : BackendStepped b (.vhostRx pkt)
          { b with virtiodev := some (dev.setQueue vhostRxQidx burst.vq), mem := burst.mem }
          { Out.quiet with burst := some burst }

theorem poll_eq_ok {b b' : Backend} {qidx : Fin maxMultiQueue}
    {call : VhostDev → SharedMem → Except Misuse Burst} {out : Out}
    (h : b.poll qidx call = .ok (b', out))
    : (b.virtiodev = none ∧ b' = b ∧ out = .quiet)
      ∨ ∃ dev burst, b.virtiodev = some dev ∧ call dev b.mem = .ok burst
        ∧ b' = { b with virtiodev := some (dev.setQueue qidx burst.vq), mem := burst.mem }
        ∧ out = { Out.quiet with burst := some burst } := by
  unfold Backend.poll at h
  split at h
  . next hdev =>
    cases h
    exact .inl ⟨hdev, rfl, rfl⟩
  . next dev hdev =>
    split at h
    . contradiction
    . next burst hcall =>
      cases h
      exact .inr ⟨dev, burst, hdev, hcall, rfl, rfl⟩

theorem backendStepped_of_step {b b' : Backend} {act : Backend.Act} {out : Out}
    (h : backendMachine.step b act = .ok (b', out)) : BackendStepped b act b' out := by
  change b.step act = .ok (b', out) at h
  cases act with
  | message env msg =>
    simp only [Backend.step, Backend.receive] at h
    split at h
    . contradiction
    . exact .message (handled_of_handler h)
  | guest mem =>
    cases h
    exact .guest
  | vhostTx newMbuf =>
    simp only [Backend.step] at h
    rcases poll_eq_ok h with ⟨hdev, rfl, rfl⟩ | ⟨dev, burst, hdev, hcall, rfl, rfl⟩
    . exact .waited (.inl ⟨newMbuf, rfl⟩) hdev
    . exact .tx hdev hcall
  | vhostRx pkt =>
    simp only [Backend.step] at h
    rcases poll_eq_ok h with ⟨hdev, rfl, rfl⟩ | ⟨dev, burst, hdev, hcall, rfl, rfl⟩
    . exact .waited (.inr ⟨pkt, rfl⟩) hdev
    . exact .rx hdev hcall

def SharedMem.zero : SharedMem where
  desc := fun _ _ => ⟨0, 0, 0⟩
  avail := fun _ => ⟨0, fun _ => 0⟩
  used := fun _ => ⟨0, fun _ => ⟨0, 0⟩⟩
  bytes := fun _ => 0

/--
A message with the given payload.
-/
def Received.of (request : UInt32) (payload : List UInt8) : Received where
  request
  flags := 1
  size := payload.length.toUInt32
  payload
  fds := .replicate virtioMaxRegion 3

/--
The message on a machine that gives memory, and maps regions far apart.
-/
def Backend.Act.send (request : UInt32) (payload : List UInt8) : Backend.Act :=
  .message ⟨true, fun i _ _ => 0x7f0000000000 + 0x40000000 * i.toUInt64⟩ (.of request payload)

end Vhost
