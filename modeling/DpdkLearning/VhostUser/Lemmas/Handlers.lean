import DpdkLearning.VhostUser.Impl.System
import DpdkLearning.VhostUser.Lemmas.NewVring
import DpdkLearning.VhostUser.Lemmas.Wire

/-!
This module contains what the server knows of the rings after each of the requests that set them up, and that
its addresses are then those of the client.
-/

open Lib

namespace VhostUser

/--
What the operating system promises: the shared memory is mapped without overlaps, and the descriptors that it
hands out are positive and those in use at the same time differ.
-/
structure Env.Ok (env : Env) : Prop where
  aligned : ∀ i < vhostClientVringNum, bufferAlignment ∣ (env.shm i).toNat
  shm : ∀ i < vhostClientVringNum, (env.shm i).toNat + pageSize < 2 ^ 64
  shmApart : (env.shm 0).toNat + pageSize ≤ (env.shm 1).toNat ∨ (env.shm 1).toNat + pageSize ≤ (env.shm 0).toNat
  serverShm : ∀ i < vhostClientVringNum, (env.serverShm i).toNat + pageSize < 2 ^ 64
  serverShmApart : (env.serverShm 0).toNat + pageSize ≤ (env.serverShm 1).toNat
    ∨ (env.serverShm 1).toNat + pageSize ≤ (env.serverShm 0).toNat
  shmFds : ∀ i < vhostClientVringNum, 0 < env.shmFds i
  kickfd : ∀ i < vhostClientVringNum, 0 < env.kickfd i
  callfd : ∀ i < vhostClientVringNum, 0 < env.callfd i
  received : ∀ fd, 0 < fd → 0 < env.received fd
  kickApart : env.received (env.kickfd 0) ≠ env.received (env.kickfd 1)
  listenSock : 0 < env.listenSock
  sock : 0 < env.sock
  kickSock : ∀ i < vhostClientVringNum, env.received (env.kickfd i) ≠ env.sock
  listenApart : ∀ i < vhostClientVringNum, env.received (env.kickfd i) ≠ env.listenSock
  sockApart : env.listenSock ≠ env.sock

theorem toNat_toUInt64 {n : Nat} (h : n < 2 ^ 64) : n.toUInt64.toNat = n := by
  rw [Nat.toUInt64_eq, UInt64.toNat_ofNat', Nat.mod_eq_of_lt h]

namespace Env

variable {env : Env} {i k off : Nat}

/--
The memory of the server once it has mapped that of the client.
-/
def serverMemory (env : Env) : VhostServerMemory where
  nregions := 2
  regions i :=
    if i < vhostClientVringNum then
      { guestPhysAddr := env.shm i
        memorySize := pageSize.toUInt64
        userspaceAddr := env.shm i
        mmapAddr := env.serverShm i }
    else
      ⟨0, 0, 0, 0⟩

/--
What the server knows of a ring after the first `n` requests of `set_host_vring`.
-/
def vringAt (env : Env) (i n : Nat) : ServerVring where
  kickfd := if 3 ≤ n then env.received (env.kickfd i) else -1
  callfd := if 4 ≤ n then env.received (env.callfd i) else -1
  desc := if 5 ≤ n then env.serverShm i + descOff.toUInt64 else 0
  avail := if 5 ≤ n then env.serverShm i + availOff.toUInt64 else 0
  used := if 5 ≤ n then env.serverShm i + usedOff.toUInt64 else 0
  vring := { num := if 1 ≤ n then vhostVringSize.toUInt32 else 0, lastAvailIdx := 0, lastUsedIdx := 0 }

def fdListAt (env : Env) (kick : Bool) : FdList ServerHandler :=
  { fd := env.listenSock, handler := some .acceptSock } :: { fd := env.sock, handler := some .receiveSock }
    :: (if kick then { fd := env.received (env.kickfd 1), handler := some .kick } else FdList.resetFdNode)
    :: List.replicate 7 FdList.resetFdNode

/--
What the server knows after the first `k` requests of `init_vhost_client`.
-/
def stage (env : Env) (k : Nat) : VhostServer where
  memory := if 3 ≤ k then env.serverMemory else { nregions := 0, regions := fun _ => ⟨0, 0, 0, 0⟩ }
  vring i := env.vringAt i (if i = 0 then k - 3 else if i = 1 then k - 8 else 0)
  isPolling := false
  fdList := env.fdListAt (decide (11 ≤ k))

/-- A place in the shared memory has the same offset in both processes. -/
theorem mapAddr_eq {start : VhostServerMemoryRegion → UInt64} (h : env.Ok)
    (hstart : ∀ i < vhostClientVringNum, start (env.serverMemory.regions i) = env.shm i)
    (hi : i < vhostClientVringNum) (hoff : off < pageSize)
    : env.serverMemory.mapAddr start (env.shm i + off.toUInt64) = env.serverShm i + off.toUInt64 := by
  have hnum : vhostClientVringNum = 2 := rfl
  have hpage : pageSize = 51380224 := rfl
  have hpageU : pageSize.toUInt64.toNat = pageSize := toNat_toUInt64 (by omega)
  have hoffU : off.toUInt64.toNat = off := toNat_toUInt64 (by omega)
  have haddr : (env.shm i + off.toUInt64).toNat = (env.shm i).toNat + off := by
    have := h.shm i hi
    rw [UInt64.toNat_add, hoffU, Nat.mod_eq_of_lt (by omega)]
  have hend : ∀ j < vhostClientVringNum, (env.shm j + pageSize.toUInt64).toNat = (env.shm j).toNat + pageSize := by
    intro j hj
    have := h.shm j hj
    rw [UInt64.toNat_add, hpageU, Nat.mod_eq_of_lt (by omega)]
  have hsize : ∀ j < vhostClientVringNum, (env.serverMemory.regions j).memorySize = pageSize.toUInt64 := by
    intro j hj
    rw [serverMemory]
    dsimp only
    rw [if_pos hj]
  have hfind : (List.range env.serverMemory.nregions.toNat).find? (fun j =>
      start (env.serverMemory.regions j) ≤ env.shm i + off.toUInt64
        ∧ env.shm i + off.toUInt64 < start (env.serverMemory.regions j) + (env.serverMemory.regions j).memorySize)
      = some i := by
    rw [List.find?_range_eq_some]
    refine ⟨?_, List.mem_range.mpr hi, ?_⟩
    . rw [decide_eq_true_eq, hstart i hi, hsize i hi, UInt64.le_iff_toNat_le, UInt64.lt_iff_toNat_lt, haddr, hend i hi]
      omega
    . -- The region before does not reach this far.
      intro j hj
      rw [Bool.not_eq_true', decide_eq_false_iff_not, hstart j (by omega), hsize j (by omega),
        UInt64.le_iff_toNat_le, UInt64.lt_iff_toNat_lt, haddr, hend j (by omega)]
      obtain rfl : j = 0 := by omega
      obtain rfl : i = 1 := by omega
      rcases h.shmApart with hle | hle
      . omega
      . omega
  have hmmap : (env.serverMemory.regions i).mmapAddr = env.serverShm i := by
    rw [serverMemory]
    dsimp only
    rw [if_pos hi]
  rw [VhostServerMemory.mapAddr, hfind]
  dsimp only
  rw [hmmap, hstart i hi, UInt64.add_comm (env.shm i), ← UInt64.add_assoc, UInt64.add_sub_cancel]

theorem mapUserAddr_eq (h : env.Ok) (hi : i < vhostClientVringNum) (hoff : off < pageSize)
    : env.serverMemory.mapUserAddr (env.shm i + off.toUInt64) = env.serverShm i + off.toUInt64 := by
  apply mapAddr_eq h _ hi hoff
  intro j hj
  rw [serverMemory]
  dsimp only
  rw [if_pos hj]

theorem mapGuestAddr_eq (h : env.Ok) (hi : i < vhostClientVringNum) (hoff : off < pageSize)
    : env.serverMemory.mapGuestAddr (env.shm i + off.toUInt64) = env.serverShm i + off.toUInt64 := by
  apply mapAddr_eq h _ hi hoff
  intro j hj
  rw [serverMemory]
  dsimp only
  rw [if_pos hj]

/-- The server finds the buffers of the client. -/
theorem finds_mapHandler (h : env.Ok) (hi : i < vhostClientVringNum)
    : Finds (env.shm i).toNat (env.mapHandler env.serverMemory i) := by
  intro j hj
  have hpage : pageSize = 51380224 := rfl
  have hbuf : bufferSize = 1528 := rfl
  have hroom := bufOff_add_le hj
  have haddr : ((env.shm i).toNat + bufOff j).toUInt64 = env.shm i + (bufOff j).toUInt64 := by
    have := h.shm i hi
    rw [← UInt64.toNat_inj, toNat_bufAddr (by omega) hj, UInt64.toNat_add, toNat_toUInt64 (by omega),
      Nat.mod_eq_of_lt (by omega)]
  have hserver := h.serverShm i hi
  have hthere : (env.serverShm i + (bufOff j).toUInt64).toNat = (env.serverShm i).toNat + bufOff j := by
    rw [UInt64.toNat_add, toNat_toUInt64 (by omega), Nat.mod_eq_of_lt (by omega)]
  rw [mapHandler, haddr, mapGuestAddr_eq h hi (by omega), mappedAt, hthere, if_pos (by omega),
    Nat.add_sub_cancel_left]

theorem finds_clientMap (h : env.Ok) (hi : i < vhostClientVringNum)
    : Finds (env.shm i).toNat (env.clientMap i) :=
  finds_mappedAt (Nat.le_of_lt (h.shm i hi))

/-- The two places of the shared memory in the server do not get confused. -/
theorem serverShm_add_ne (h : env.Ok) : env.serverShm 1 + off.toUInt64 ≠ env.serverShm 0 + off.toUInt64 := by
  intro heq
  have hsame := (UInt64.add_left_inj _).mp heq
  have hpage : pageSize = 51380224 := rfl
  have := h.serverShmApart
  rw [hsame] at this
  omega

theorem find_serverShm {p : Nat → Prop} [DecidablePred p] (hi : i < vhostClientVringNum) (h : p i)
    (hne : i = 1 → ¬p 0) : (List.range vhostClientVringNum).find? (fun j => p j) = some i := by
  have hnum : vhostClientVringNum = 2 := rfl
  rw [List.find?_range_eq_some]
  refine ⟨decide_eq_true h, List.mem_range.mpr hi, ?_⟩
  intro j hj
  obtain rfl : j = 0 := by omega
  rw [Bool.not_eq_true', decide_eq_false_iff_not]
  exact hne (by omega)

theorem tables_eq {v : ServerVring} (h : env.Ok) (hi : i < vhostClientVringNum)
    (hdesc : v.desc = env.serverShm i + descOff.toUInt64) (havail : v.avail = env.serverShm i + availOff.toUInt64)
    (hused : v.used = env.serverShm i + usedOff.toUInt64) : env.tables v = some i := by
  apply find_serverShm (p := fun i => v.desc = env.serverShm i + descOff.toUInt64
    ∧ v.avail = env.serverShm i + availOff.toUInt64 ∧ v.used = env.serverShm i + usedOff.toUInt64) hi
  . exact ⟨hdesc, havail, hused⟩
  . rintro rfl ⟨hzero, _⟩
    rw [hdesc] at hzero
    exact serverShm_add_ne h hzero

theorem host_usedIdx (env : Env) (shm : Nat → VhostVring) (ptr : UInt64)
    : (env.host shm).usedIdx ptr
      = match (List.range vhostClientVringNum).find? (fun i => ptr = env.serverShm i + usedOff.toUInt64) with
        | none => none
        | some i => some (shm i).usedIdx := by
  rfl

theorem usedIdx_eq {shm : Nat → VhostVring} (h : env.Ok) (hi : i < vhostClientVringNum)
    : (env.host shm).usedIdx (env.serverShm i + usedOff.toUInt64) = some (shm i).usedIdx := by
  have hfind : (List.range vhostClientVringNum).find? (fun j =>
      env.serverShm i + usedOff.toUInt64 = env.serverShm j + usedOff.toUInt64) = some i := by
    apply find_serverShm (p := fun j => env.serverShm i + usedOff.toUInt64 = env.serverShm j + usedOff.toUInt64) hi rfl
    rintro rfl hzero
    exact serverShm_add_ne h hzero
  rw [host_usedIdx, hfind]

theorem eventOf_eq (h : env.Ok) (hi : i < vhostClientVringNum)
    : env.eventOf (env.received (env.kickfd i)) = some i := by
  apply find_serverShm (p := fun j => env.received (env.kickfd i) = env.received (env.kickfd j)) hi rfl
  rintro rfl hzero
  exact h.kickApart hzero.symm

end Env

/--
A message that says what the request does, with the numbers that its descriptors have in the server.
-/
structure Arrives (env : Env) (io : Ioctl) (msg : ServerMsg) (fds : List Int) : Prop where
  request : msg.msg.request = io.request
  flags : msg.msg.flags = vhostUserVersion
  reads : io.Reads env.shmFds msg.msg fds
  fdNum : msg.fdNum = fds.length
  fds : ∀ j fd, fds[j]? = some fd → msg.fds j = env.received fd

namespace Arrives

variable {env : Env} {msg : ServerMsg} {fds : List Int} {s : VhostServer} {host : Host} {i n : Nat}

theorem vringIdx_eq (hi : i < vhostClientVringNum) : vringIdx i.toUInt32 = .ok i := by
  have hnum : vhostClientVringNum = 2 := rfl
  have hcases : i = 0 ∨ i = 1 := by omega
  rcases hcases with rfl | rfl
  . decide
  . decide

theorem setVringNum {num : UInt32} (hi : i < vhostClientVringNum)
    (h : Arrives env (.setVringNum { index := i.toUInt32, num }) msg fds)
    : s.inMsgServer host msg
      = .ok {
        server := s.setVring i { s.vring i with vring := { (s.vring i).vring with num } }
        msg := msg.msg
        reply := false } := by
  have hreads := h.reads.1
  have hrequest : msg.msg.request.toNat = 8 := by
    rw [h.request]
    rfl
  rw [VhostServer.inMsgServer, hrequest]
  rw [VhostServer.setVringNum, hreads, vringIdx_eq hi]
  rfl

theorem setVringBase {num : UInt32} (hi : i < vhostClientVringNum)
    (h : Arrives env (.setVringBase { index := i.toUInt32, num }) msg fds)
    : s.inMsgServer host msg
      = .ok {
        server := s.setVring i { s.vring i with vring := { (s.vring i).vring with lastAvailIdx := num.toUInt16 } }
        msg := msg.msg
        reply := false } := by
  have hreads := h.reads.1
  have hrequest : msg.msg.request.toNat = 10 := by
    rw [h.request]
    rfl
  rw [VhostServer.inMsgServer, hrequest]
  rw [VhostServer.setVringBase, hreads, vringIdx_eq hi]
  rfl

/-- A descriptor comes with the message, and no flag says that it does not. -/
theorem vringFile_eq {file : VhostVringFile} (hi : i < vhostClientVringNum) (hfd : 0 < file.fd)
    (hindex : file.index = i.toUInt32) (hu64 : msg.msg.u64 = file.index.toUInt64) (hfds : fds = file.payload.2)
    (hnum : msg.fdNum = fds.length) (hget : ∀ j fd, fds[j]? = some fd → msg.fds j = env.received fd)
    : VhostServer.vringFile msg = .ok (i, some (env.received file.fd)) := by
  have hone : fds = [file.fd] := by
    rw [hfds, VhostVringFile.payload, if_pos hfd]
  have hfd0 : msg.fds 0 = env.received file.fd := by
    apply hget
    rw [hone]
    rfl
  have hidx : (i.toUInt32.toUInt64 &&& vhostUserVringIdxMask).toNat = i
      ∧ i.toUInt32.toUInt64 &&& vhostUserVringNofdMask = 0 := by
    have hnum : vhostClientVringNum = 2 := rfl
    have hcases : i = 0 ∨ i = 1 := by omega
    rcases hcases with rfl | rfl
    . decide
    . decide
  rw [hone, List.length_singleton] at hnum
  rw [VhostServer.vringFile, hu64, hindex, hidx.1, if_pos hi, if_pos hidx.2, if_pos hnum, hfd0]

theorem setVringKick {fd : Int} (hi : i < vhostClientVringNum) (hfd : 0 < fd)
    (h : Arrives env (.setVringKick { index := i.toUInt32, fd }) msg fds)
    : s.inMsgServer host msg
      = .ok {
        server := { s.setVring i { s.vring i with kickfd := env.received fd } with
          fdList := if i = vhostClientVringIdxTx then FdList.add s.fdList (env.received fd) .kick else s.fdList
          isPolling := false }
        msg := msg.msg
        reply := false } := by
  have hrequest : msg.msg.request.toNat = 12 := by
    rw [h.request]
    rfl
  rw [VhostServer.inMsgServer, hrequest]
  rw [VhostServer.setVringKick, vringFile_eq hi hfd rfl h.reads.1 h.reads.2 h.fdNum h.fds]
  rfl

theorem setVringCall {fd : Int} (hi : i < vhostClientVringNum) (hfd : 0 < fd)
    (h : Arrives env (.setVringCall { index := i.toUInt32, fd }) msg fds)
    : s.inMsgServer host msg
      = .ok {
        server := s.setVring i { s.vring i with callfd := env.received fd }
        msg := msg.msg
        reply := false } := by
  have hrequest : msg.msg.request.toNat = 13 := by
    rw [h.request]
    rfl
  rw [VhostServer.inMsgServer, hrequest]
  rw [VhostServer.setVringCall, vringFile_eq hi hfd rfl h.reads.1 h.reads.2 h.fdNum h.fds]
  rfl

theorem setVringAddr {addr : VhostVringAddr} {usedIdx : UInt16} (hi : i < vhostClientVringNum)
    (hindex : addr.index = i.toUInt32) (h : Arrives env (.setVringAddr addr) msg fds)
    (hused : host.usedIdx (s.memory.mapUserAddr addr.usedUserAddr) = some usedIdx)
    : s.inMsgServer host msg
      = .ok {
        server := s.setVring i { s.vring i with
          desc := s.memory.mapUserAddr addr.descUserAddr
          avail := s.memory.mapUserAddr addr.availUserAddr
          used := s.memory.mapUserAddr addr.usedUserAddr
          vring := { (s.vring i).vring with lastUsedIdx := usedIdx } }
        msg := msg.msg
        reply := false } := by
  have hreads := h.reads.1
  have hrequest : msg.msg.request.toNat = 9 := by
    rw [h.request]
    rfl
  rw [VhostServer.inMsgServer, hrequest]
  rw [VhostServer.setVringAddr, hreads, hindex, vringIdx_eq hi]
  dsimp only
  rw [hused]
  rfl

/-- All regions of the client's table are mapped. -/
theorem setMemTable (hok : env.Ok) (hmmap : host.mmap = env.mmap) (h : Arrives env (.setMemTable env.memory) msg fds)
    (hregions : s.memory.regions = fun _ => ⟨0, 0, 0, 0⟩)
    : s.inMsgServer host msg
      = .ok { server := { s with memory := env.serverMemory }, msg := msg.msg, reply := false } := by
  have hrequest : msg.msg.request.toNat = 5 := by
    rw [h.request]
    rfl
  rcases h.reads with ⟨hnregions, hregion, hfds⟩
  have hlen : msg.fdNum = 2 := by
    rw [h.fdNum, hfds]
    rfl
  have hfd : ∀ i < vhostClientVringNum, msg.fds i = env.received (env.shmFds i) := by
    intro i hi
    apply h.fds
    have hnum : vhostClientVringNum = 2 := rfl
    have hcases : i = 0 ∨ i = 1 := by omega
    rw [hfds]
    rcases hcases with rfl | rfl
    . rfl
    . rfl
  have hpos : ∀ i < vhostClientVringNum, env.received (env.shmFds i) > 0 := by
    intro i hi
    exact hok.received _ (hok.shmFds i hi)
  have hread : ∀ i < vhostClientVringNum, msg.msg.region i = {
      guestPhysAddr := env.shm i, memorySize := pageSize.toUInt64, userspaceAddr := env.shm i, mmapOffset := 0 } := by
    intro i hi
    apply hregion
    have hnum : vhostClientVringNum = 2 := rfl
    have hcases : i = 0 ∨ i = 1 := by omega
    rcases hcases with rfl | rfl
    . rfl
    . rfl
  have htwo : msg.msg.nregions.toNat = 2 := hnregions
  have hmap : ∀ i, env.mmap (env.received (env.shmFds i)) pageSize.toUInt64 + 0 = env.serverShm i := by
    intro i
    rw [UInt64.add_zero, Env.serverShm]
  have h0 : 0 < vhostClientVringNum := by decide
  have h1 : 1 < vhostClientVringNum := by decide
  have hloop : VhostServer.setMemTableLoop host { s.memory with nregions := 0 } msg 0 2 = .ok env.serverMemory := by
    have hmax : vhostMemoryMaxNregions = 8 := rfl
    simp only [VhostServer.setMemTableLoop, hmax, hlen, hpos 0 h0, hpos 1 h1, hread 0 h0, hread 1 h1, hfd 0 h0,
      hfd 1 h1, hmmap, hmap, hregions, if_true, Nat.zero_add, Nat.reduceLT]
    congr 1
    rw [Env.serverMemory]
    congr 1
    funext i
    have hcases : i = 0 ∨ i = 1 ∨ 2 ≤ i := by omega
    rcases hcases with rfl | rfl | hi
    . simp [vhostClientVringNum]
    . simp [vhostClientVringNum]
    . rw [Function.update_of_ne (by omega), Function.update_of_ne (by omega)]
      simp [vhostClientVringNum, Nat.not_lt_of_le hi]
  rw [VhostServer.inMsgServer, hrequest]
  rw [VhostServer.setMemTable, htwo, hloop]
  rfl

theorem setOwner (h : Arrives env .setOwner msg fds)
    : s.inMsgServer host msg = .ok { server := s, msg := msg.msg, reply := false } := by
  have hrequest : msg.msg.request.toNat = 3 := by
    rw [h.request]
    rfl
  rw [VhostServer.inMsgServer, hrequest]
  rfl

/-- The reply still tells the request and the version. -/
theorem getFeatures (s : VhostServer) (host : Host) (h : Arrives env .getFeatures msg fds)
    : ∃ reply, s.inMsgServer host msg = .ok { server := s, msg := reply, reply := true }
      ∧ reply.request = 1 ∧ reply.flags = vhostUserVersion ∧ reply.size = 8 := by
  have hrequest : msg.msg.request.toNat = 1 := by
    rw [h.request]
    rfl
  refine ⟨(msg.msg.setU64 0).setSize 8, ?_, ?_, ?_, ?_⟩
  . rw [VhostServer.inMsgServer, hrequest]
    rfl
  . have hkept : ((msg.msg.setU64 0).setSize 8).request = msg.msg.request := by
      simp only [VhostUserMsg.request, VhostUserMsg.setSize, VhostUserMsg.setU64, Memory.store32, Memory.store64,
        Memory.load32]
      rw [Memory.load_store_apart (by simp), Memory.load_store_apart (by simp)]
    rw [hkept, h.request]
    rfl
  . have hkept : ((msg.msg.setU64 0).setSize 8).flags = msg.msg.flags := by
      simp only [VhostUserMsg.flags, VhostUserMsg.setSize, VhostUserMsg.setU64, Memory.store32, Memory.store64,
        Memory.load32]
      rw [Memory.load_store_apart (by simp), Memory.load_store_apart (by simp)]
    rw [hkept, h.flags]
  . apply Memory.load32_store32

end Arrives

namespace Env

variable {env : Env} {i n k : Nat} {shm : Nat → VhostVring} {msg : ServerMsg} {fds : List Int}

/-- The first two nodes are taken. -/
theorem add_kick (h : env.Ok) : FdList.add (env.fdListAt false) (env.received (env.kickfd 1)) .kick = env.fdListAt true := by
  have hlisten := h.listenSock
  have hsock := h.sock
  have hfind : (env.fdListAt false).findFdNodeByFd (-1) = some 2 := by
    simp [FdList.findFdNodeByFd, fdListAt, FdList.resetFdNode, List.findIdx?_cons, show env.listenSock ≠ -1 by omega,
      show env.sock ≠ -1 by omega]
  rw [FdList.add, hfind]
  rfl

theorem newVhostServer_eq (h : env.Ok) : newVhostServer env.listenSock env.sock = env.stage 0 := by
  have hlisten := h.listenSock
  have hfirst : (FdList.init : FdList ServerHandler).findFdNodeByFd (-1) = some 0 := rfl
  have hlist : FdList.add (FdList.add FdList.init env.listenSock .acceptSock) env.sock .receiveSock
      = env.fdListAt false := by
    rw [FdList.add, FdList.add, hfirst]
    dsimp only
    have hsecond : FdList.findFdNodeByFd
        (List.set FdList.init 0 { fd := env.listenSock, handler := some ServerHandler.acceptSock }) (-1) = some 1 := by
      simp [FdList.findFdNodeByFd, FdList.init, fdListSize, List.replicate_succ, FdList.resetFdNode,
        List.findIdx?_cons, show env.listenSock ≠ -1 by omega]
    rw [hsecond]
    rfl
  rw [newVhostServer, hlist, stage]
  congr 1
  funext i
  simp [vringAt]

theorem stage_vring (hi : i < vhostClientVringNum) : (env.stage (3 + 5 * i + n)).vring i = env.vringAt i n := by
  have hnum : vhostClientVringNum = 2 := rfl
  have hcases : i = 0 ∨ i = 1 := by omega
  rcases hcases with rfl | rfl
  . simp [stage]
  . simp [stage]

/-- The next request for a ring changes nothing else but the list of nodes. -/
theorem stage_setVring (hi : i < vhostClientVringNum) (hn : n < 5)
    : { (env.stage (3 + 5 * i + n)).setVring i (env.vringAt i (n + 1)) with
        fdList := env.fdListAt (decide (11 ≤ 3 + 5 * i + n + 1)) } = env.stage (3 + 5 * i + n + 1) := by
  have hnum : vhostClientVringNum = 2 := rfl
  have hmem : 3 ≤ 3 + 5 * i + n := by omega
  have hmem' : 3 ≤ 3 + 5 * i + n + 1 := by omega
  simp only [VhostServer.setVring, stage, hmem, hmem', if_true, VhostServer.mk.injEq, and_true, true_and]
  funext j
  by_cases hj : j = i
  . subst hj
    rw [Function.update_self]
    have hcases : j = 0 ∨ j = 1 := by omega
    rcases hcases with rfl | rfl
    . simp only [if_true]
      congr 1
      omega
    . simp only [if_true, Nat.one_ne_zero, if_false]
      congr 1
      omega
  . rw [Function.update_of_ne hj]
    -- The other ring has seen none of its requests yet, or all of them.
    have hcases : (i = 0 ∧ j ≠ 0) ∨ (i = 1 ∧ j ≠ 1) := by omega
    rcases hcases with ⟨rfl, hj0⟩ | ⟨rfl, hj1⟩
    . simp only [if_neg hj0]
      by_cases hj1 : j = 1
      . simp only [if_pos hj1]
        congr 1
        omega
      . simp only [if_neg hj1]
    . by_cases hj0 : j = 0
      . simp only [if_pos hj0, vringAt]
        have hge : ∀ m ≤ 5, m ≤ 3 + 5 * 1 + n - 3 ∧ m ≤ 3 + 5 * 1 + n + 1 - 3 := by
          intro m hm
          omega
        simp only [hge 1 (by decide), hge 3 (by decide), hge 4 (by decide), hge 5 (by decide), if_true]
      . simp only [if_neg hj0, if_neg hj1]

theorem memory_stage (hk : 3 ≤ k) : (env.stage k).memory = env.serverMemory := by
  rw [stage]
  dsimp only
  rw [if_pos hk]

/-- What the server does with the requests that set up one ring. -/
theorem handled_setHostVring {io : Ioctl} (hok : env.Ok) (hi : i < vhostClientVringNum)
    (hio : (env.setHostVring i)[n]? = some io) (h : Arrives env io msg fds) (hshm : (shm i).usedIdx = 0)
    : (env.stage (3 + 5 * i + n)).inMsgServer (env.host shm) msg
      = .ok { server := env.stage (3 + 5 * i + n + 1), msg := msg.msg, reply := false } := by
  have hnum : vhostClientVringNum = 2 := rfl
  have hn : n < 5 := by
    have := (List.getElem?_eq_some_iff.mp hio).1
    simpa [setHostVring] using this
  have hfdList : (env.stage (3 + 5 * i + n)).fdList = env.fdListAt (decide (11 ≤ 3 + 5 * i + n)) := rfl
  have hvring : (env.stage (3 + 5 * i + n)).vring i = env.vringAt i n := stage_vring hi
  rw [← stage_setVring hi hn]
  have hcases : n = 0 ∨ n = 1 ∨ n = 2 ∨ n = 3 ∨ n = 4 := by omega
  rcases hcases with rfl | rfl | rfl | rfl | rfl
  . cases hio
    rw [h.setVringNum hi, hvring]
    have hlist : decide (11 ≤ 3 + 5 * i + 0 + 1) = decide (11 ≤ 3 + 5 * i + 0) := by
      rw [decide_eq_decide]
      omega
    rw [hlist, ← hfdList]
    rfl
  . cases hio
    rw [h.setVringBase hi, hvring]
    have hlist : decide (11 ≤ 3 + 5 * i + 1 + 1) = decide (11 ≤ 3 + 5 * i + 1) := by
      rw [decide_eq_decide]
      omega
    rw [hlist, ← hfdList]
    rfl
  . cases hio
    rw [h.setVringKick hi (hok.kickfd i hi), hvring]
    have hlist : (if i = vhostClientVringIdxTx then
        FdList.add (env.stage (3 + 5 * i + 2)).fdList (env.received (env.kickfd i)) .kick
        else (env.stage (3 + 5 * i + 2)).fdList) = env.fdListAt (decide (11 ≤ 3 + 5 * i + 2 + 1)) := by
      have hcases : i = 0 ∨ i = 1 := by omega
      rcases hcases with rfl | rfl
      . rfl
      . exact add_kick hok
    rw [hlist]
    rfl
  . cases hio
    rw [h.setVringCall hi (hok.callfd i hi), hvring]
    have hlist : decide (11 ≤ 3 + 5 * i + 3 + 1) = decide (11 ≤ 3 + 5 * i + 3) := by
      rw [decide_eq_decide]
      omega
    rw [hlist, ← hfdList]
    rfl
  . cases hio
    have hmem : (env.stage (3 + 5 * i + 4)).memory = env.serverMemory := memory_stage (by omega)
    have hroom : ∀ off ≤ usedOff, off < pageSize := by
      intro off hoff
      have hpage : pageSize = 51380224 := rfl
      have husedOff : usedOff = 593920 := rfl
      omega
    have hused : (env.host shm).usedIdx
        ((env.stage (3 + 5 * i + 4)).memory.mapUserAddr (env.shm i + usedOff.toUInt64)) = some 0 := by
      rw [hmem, mapUserAddr_eq hok hi (hroom _ (Nat.le_refl _)), usedIdx_eq hok hi, hshm]
    rw [h.setVringAddr hi rfl hused, hvring]
    dsimp only
    rw [hmem, mapUserAddr_eq hok hi (hroom descOff (by decide)), mapUserAddr_eq hok hi (hroom availOff (by decide)),
      mapUserAddr_eq hok hi (hroom usedOff (by decide))]
    have hlist : decide (11 ≤ 3 + 5 * i + 4 + 1) = decide (11 ≤ 3 + 5 * i + 4) := by
      rw [decide_eq_decide]
      omega
    rw [hlist, ← hfdList]
    rfl

end Env

end VhostUser
