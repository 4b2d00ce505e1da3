import DpdkLearning.VhostUser.Impl.Message

/-!
This module contains the proof that a message of `vhost_ioctl` is received as it was sent, and that what the
server reads in it is what the client was asked to tell.
-/

open Lib

namespace VhostUser

/--
As far as it is sent, the second message has the bytes of the first.
-/
def VhostUserMsg.Agrees (msg msg' : VhostUserMsg) : Prop :=
  ∀ i < vhostUserHdrSize + msg.size.toNat, msg'.mem i = msg.mem i

namespace VhostUserMsg.Agrees

variable {msg msg' : VhostUserMsg} {off : Nat}

theorem load32_eq (h : msg.Agrees msg') (hoff : off + 4 ≤ vhostUserHdrSize + msg.size.toNat)
    : msg'.mem.load32 off = msg.mem.load32 off := by
  apply Memory.load32_congr
  intro i _ hi
  apply h
  omega

theorem request_eq (h : msg.Agrees msg') : msg'.request = msg.request := by
  apply h.load32_eq
  rw [vhostUserHdrSize]
  omega

theorem flags_eq (h : msg.Agrees msg') : msg'.flags = msg.flags := by
  apply h.load32_eq
  rw [vhostUserHdrSize]
  omega

end VhostUserMsg.Agrees

/-- The header and then as many bytes as it tells are read back. -/
theorem recv_send (msg old : VhostUserMsg) (fds : List Int) (fdNum : Nat) (s : Socket)
    (hsize : vhostUserHdrSize + msg.size.toNat ≤ vhostUserMsgSize) (hfds : fds.length ≤ fdNum)
    : ∃ r, vhostUserRecvFds ((msg.mem.load 0 (vhostUserHdrSize + msg.size.toNat), fds) :: s) old fdNum
        = .ok (some r)
      ∧ r.ret = vhostUserHdrSize ∧ msg.Agrees r.msg ∧ r.fds = fds ∧ r.socket = s := by
  have hhdr : vhostUserHdrSize = 12 := rfl
  -- The header tells the size.
  have hheader : (msg.mem.load 0 (vhostUserHdrSize + msg.size.toNat)).take vhostUserHdrSize
      = msg.mem.load 0 vhostUserHdrSize := by
    have : ((msg.mem.load 0 (vhostUserHdrSize + msg.size.toNat)).drop 0).take vhostUserHdrSize
        = msg.mem.load (0 + 0) vhostUserHdrSize := Memory.take_drop_load (by omega)
    simpa using this
  have hrest : (msg.mem.load 0 (vhostUserHdrSize + msg.size.toNat)).drop vhostUserHdrSize
      = msg.mem.load vhostUserHdrSize msg.size.toNat := by
    have : ((msg.mem.load 0 (vhostUserHdrSize + msg.size.toNat)).drop vhostUserHdrSize).take msg.size.toNat
        = msg.mem.load (0 + vhostUserHdrSize) msg.size.toNat := Memory.take_drop_load (Nat.le_refl _)
    rw [List.take_of_length_le (by simp), Nat.zero_add] at this
    exact this
  have hsame : (VhostUserMsg.mk (old.mem.store 0 (msg.mem.load 0 vhostUserHdrSize))).size = msg.size := by
    simp only [VhostUserMsg.size, Memory.load32]
    have : (old.mem.store 0 (msg.mem.load 0 vhostUserHdrSize)).load (0 + 8) 4
        = ((msg.mem.load 0 vhostUserHdrSize).drop 8).take 4 := Memory.load_store_inside (by simp [hhdr])
    rw [Nat.zero_add] at this
    rw [this, Memory.take_drop_load (by omega), Nat.zero_add]
  have hread : Socket.read (if vhostUserHdrSize + msg.size.toNat ≤ vhostUserHdrSize then s
        else (msg.mem.load vhostUserHdrSize msg.size.toNat, []) :: s) msg.size.toNat
      = some (msg.mem.load vhostUserHdrSize msg.size.toNat, s) := by
    unfold Socket.read
    by_cases hzero : msg.size.toNat = 0
    . rw [hzero, if_pos rfl]
      simp [Memory.load]
    . rw [if_neg hzero, if_neg (by omega), Socket.recvmsg, List.take_of_length_le (by simp), if_pos (by simp)]
  let msg' : VhostUserMsg :=
    ⟨(old.mem.store 0 (msg.mem.load 0 vhostUserHdrSize)).store vhostUserHdrSize
      (msg.mem.load vhostUserHdrSize msg.size.toNat)⟩
  have hagrees : msg.Agrees msg' := by
    intro i hi
    by_cases hlt : i < vhostUserHdrSize
    . have hhead : msg'.mem i = old.mem.store 0 (msg.mem.load 0 vhostUserHdrSize) i := by
        apply Memory.store_apart
        exact .inl hlt
      rw [hhead, Memory.store_load_eq (Nat.zero_le i) (by omega)]
    . apply Memory.store_load_eq
      . omega
      . exact hi
  refine ⟨{ ret := vhostUserHdrSize, msg := msg', fds, socket := s }, ?_, rfl, hagrees, rfl, rfl⟩
  simp only [vhostUserRecvFds, Socket.recvmsg]
  rw [if_neg (by omega), if_pos hfds, hheader, hsame, Memory.length_load, hrest, hread]
  simp only [Memory.length_load]
  rw [if_pos hsize]

@[simp]
theorem length_stateBytes (s : VhostVringState) : s.bytes.length = 8 := by
  simp [VhostVringState.bytes]

@[simp]
theorem length_addrBytes (a : VhostVringAddr) : a.bytes.length = 40 := by
  simp [VhostVringAddr.bytes]

@[simp]
theorem length_regionBytes (r : VhostUserMemoryRegion) : r.bytes.length = 32 := by
  simp [VhostUserMemoryRegion.bytes]

theorem length_flatMap_regions (rs : List VhostUserMemoryRegion)
    : (rs.flatMap VhostUserMemoryRegion.bytes).length = 32 * rs.length := by
  induction rs with
  | nil => rfl
  | cons r rs ih =>
    rw [List.flatMap_cons, List.length_append, ih, length_regionBytes, List.length_cons]
    omega

@[simp]
theorem length_memoryBytes (m : VhostUserMemory) : m.bytes.length = 8 + 32 * m.regions.length := by
  simp only [VhostUserMemory.bytes, List.length_append, Memory.length_ofUInt32, length_flatMap_regions]

variable {shmFds : Nat → Int} {io : Ioctl} {bytes : List UInt8} {fds : List Int} {msg : VhostUserMsg}

/-- No request needs more room than the memory table. -/
theorem length_payload (h : io.payload shmFds = .ok (bytes, fds))
    : vhostUserHdrSize + bytes.length ≤ vhostUserMsgSize ∧ fds.length ≤ vhostMemoryMaxNregions := by
  have hhdr : vhostUserHdrSize = 12 := rfl
  have hmsg : vhostUserMsgSize = 276 := rfl
  have hmax : vhostMemoryMaxNregions = 8 := rfl
  have hfile : ∀ f : VhostVringFile, f.payload = (bytes, fds)
      → vhostUserHdrSize + bytes.length ≤ vhostUserMsgSize ∧ fds.length ≤ vhostMemoryMaxNregions := by
    intro f hf
    unfold VhostVringFile.payload at hf
    cases hf
    constructor
    . simp [hhdr, hmsg]
    . split
      . simp [hmax]
      . simp
  cases io with
  | setMemTable m =>
    unfold Ioctl.payload at h
    dsimp only at h
    split at h
    . next hlen =>
      cases h
      simp only [length_memoryBytes, List.length_map, List.length_range]
      omega
    . contradiction
  | setVringKick f => exact hfile f (Except.ok.inj h)
  | setVringCall f => exact hfile f (Except.ok.inj h)
  | setVringErr f => exact hfile f (Except.ok.inj h)
  | _ =>
    cases h
    simp [hhdr, hmsg, hmax]

/-- The message tells its request, the version and its size, and holds what the request is about. -/
theorem vhostIoctl_eq (h : io.payload shmFds = .ok (bytes, fds))
    : ∃ msg, vhostIoctl shmFds io = .ok (msg, fds) ∧ msg.request = io.request ∧ msg.flags = vhostUserVersion
      ∧ msg.size.toNat = bytes.length ∧ msg.mem.load vhostUserHdrSize bytes.length = bytes := by
  have hhdr : vhostUserHdrSize = 12 := rfl
  have hmsg : vhostUserMsgSize = 276 := rfl
  have hlen := (length_payload h).1
  have hapart : ∀ (m : Memory) (off : Nat) (bs : List UInt8) (k : Nat), off + 4 ≤ k ∨ k + bs.length ≤ off
      → (m.store k bs).load32 off = m.load32 off := by
    intro m off bs k hk
    rw [Memory.load32, Memory.load32, Memory.load_store_apart hk]
  -- Nothing was in the flags before.
  have hblank : Memory.load32 (Memory.store32 (fun _ => 0) 0 io.request) 4 = 0 := by
    rw [Memory.store32, hapart _ _ _ _ (by simp)]
    decide
  have hflags : (0 : UInt32) &&& ~~~vhostUserVersionMask ||| vhostUserVersion = vhostUserVersion := by decide
  unfold vhostIoctl
  rw [h]
  refine ⟨_, rfl, ?_, ?_, ?_, ?_⟩
  . simp only [VhostUserMsg.setPayload, VhostUserMsg.setSize, VhostUserMsg.setFlags, VhostUserMsg.setRequest,
      VhostUserMsg.request, Memory.store32]
    rw [hapart _ _ _ _ (by simp), hapart _ _ _ _ (by simp), hapart _ _ _ _ (by simp)]
    exact Memory.load32_store32 _ 0 _
  . simp only [VhostUserMsg.setPayload, VhostUserMsg.setSize, VhostUserMsg.setFlags, VhostUserMsg.setRequest,
      VhostUserMsg.flags, hblank, hflags]
    rw [Memory.store32, hapart _ _ _ _ (by simp), hapart _ _ _ _ (by simp)]
    apply Memory.load32_store32
  . rw [VhostUserMsg.setPayload, VhostUserMsg.setSize, VhostUserMsg.size, Memory.load32_store32,
      Nat.toUInt32_eq, UInt32.toNat_ofNat', Nat.mod_eq_of_lt (by omega)]
  . simp only [VhostUserMsg.setPayload, VhostUserMsg.setSize, Memory.store32]
    rw [Memory.load_store_apart (by simp [hhdr])]
    exact Memory.load_store rfl

/--
What a request says, as the server reads it in the message and the descriptors that it gets.
-/
def Ioctl.Reads (shmFds : Nat → Int) (io : Ioctl) (msg : VhostUserMsg) (fds : List Int) : Prop :=
  match io with
  | .none => fds = []
  | .getFeatures => fds = []
  | .setFeatures u64 => msg.u64 = u64 ∧ fds = []
  | .setOwner => fds = []
  | .resetOwner => fds = []
  | .setMemTable memory =>
    msg.nregions.toNat = memory.regions.length ∧ (∀ i r, memory.regions[i]? = some r → msg.region i = r)
      ∧ fds = (List.range memory.regions.length).map shmFds
  | .setLogBase u64 => msg.u64 = u64 ∧ fds = []
  | .setLogFd fd => fds = [fd]
  | .setVringNum state => msg.state = state ∧ fds = []
  | .setVringAddr addr => msg.addr = addr ∧ fds = []
  | .setVringBase state => msg.state = state ∧ fds = []
  | .getVringBase => fds = []
  | .setVringKick file => msg.u64 = file.index.toUInt64 ∧ fds = file.payload.2
  | .setVringCall file => msg.u64 = file.index.toUInt64 ∧ fds = file.payload.2
  | .setVringErr file => msg.u64 = file.index.toUInt64 ∧ fds = file.payload.2

/-- A field of the union is what its bytes are. -/
theorem load32_field {v : UInt32} (pre post : List UInt8) (h : msg.mem.load vhostUserHdrSize bytes.length = bytes)
    (hbytes : bytes = pre ++ (Memory.ofUInt32 v ++ post)) : msg.mem.load32 (vhostUserHdrSize + pre.length) = v := by
  have hroom : pre.length + 4 ≤ bytes.length := by
    simp [hbytes]
  rw [Memory.load32, ← Memory.take_drop_load hroom, h, hbytes, List.drop_left,
    List.take_left' (Memory.length_ofUInt32 v), Memory.toUInt32_ofUInt32]

theorem load64_field {v : UInt64} (pre post : List UInt8) (h : msg.mem.load vhostUserHdrSize bytes.length = bytes)
    (hbytes : bytes = pre ++ (Memory.ofUInt64 v ++ post)) : msg.mem.load64 (vhostUserHdrSize + pre.length) = v := by
  have hroom : pre.length + 8 ≤ bytes.length := by
    simp [hbytes]
  rw [Memory.load64, ← Memory.take_drop_load hroom, h, hbytes, List.drop_left,
    List.take_left' (Memory.length_ofUInt64 v), Memory.toUInt64_ofUInt64]

theorem u64_of_payload {v : UInt64}
    (h : msg.mem.load vhostUserHdrSize (Memory.ofUInt64 v).length = Memory.ofUInt64 v) : msg.u64 = v := by
  apply load64_field [] [] h
  simp

theorem state_of_payload {s : VhostVringState} (h : msg.mem.load vhostUserHdrSize s.bytes.length = s.bytes)
    : msg.state = s := by
  have hindex : msg.mem.load32 12 = s.index := by
    apply load32_field [] (Memory.ofUInt32 s.num) h
    rfl
  have hnum : msg.mem.load32 16 = s.num := by
    apply load32_field (Memory.ofUInt32 s.index) [] h
    simp [VhostVringState.bytes]
  rw [VhostUserMsg.state, hindex, hnum]

theorem addr_of_payload {a : VhostVringAddr} (h : msg.mem.load vhostUserHdrSize a.bytes.length = a.bytes)
    : msg.addr = a := by
  have hindex : msg.mem.load32 12 = a.index := by
    apply load32_field [] _ h
    simp only [VhostVringAddr.bytes, List.append_assoc, List.nil_append]
    rfl
  have hflags : msg.mem.load32 16 = a.flags := by
    apply load32_field (Memory.ofUInt32 a.index) _ h
    simp only [VhostVringAddr.bytes, List.append_assoc]
    rfl
  have hdesc : msg.mem.load64 20 = a.descUserAddr := by
    apply load64_field (Memory.ofUInt32 a.index ++ Memory.ofUInt32 a.flags) _ h
    simp only [VhostVringAddr.bytes, List.append_assoc]
    rfl
  have hused : msg.mem.load64 28 = a.usedUserAddr := by
    apply load64_field (Memory.ofUInt32 a.index ++ Memory.ofUInt32 a.flags ++ Memory.ofUInt64 a.descUserAddr) _ h
    simp only [VhostVringAddr.bytes, List.append_assoc]
    rfl
  have havail : msg.mem.load64 36 = a.availUserAddr := by
    apply load64_field (Memory.ofUInt32 a.index ++ Memory.ofUInt32 a.flags ++ Memory.ofUInt64 a.descUserAddr
      ++ Memory.ofUInt64 a.usedUserAddr) _ h
    simp only [VhostVringAddr.bytes, List.append_assoc]
    rfl
  have hlog : msg.mem.load64 44 = a.logGuestAddr := by
    apply load64_field (Memory.ofUInt32 a.index ++ Memory.ofUInt32 a.flags ++ Memory.ofUInt64 a.descUserAddr
      ++ Memory.ofUInt64 a.usedUserAddr ++ Memory.ofUInt64 a.availUserAddr) [] h
    simp only [VhostVringAddr.bytes, List.append_assoc, List.append_nil]
  rw [VhostUserMsg.addr, hindex, hflags, hdesc, hused, havail, hlog]

theorem region_of_payload {m : VhostUserMemory} {r : VhostUserMemoryRegion} {i : Nat}
    (h : msg.mem.load vhostUserHdrSize m.bytes.length = m.bytes) (hr : m.regions[i]? = some r)
    : msg.region i = r := by
  rcases List.getElem?_eq_some_iff.mp hr with ⟨hi, rfl⟩
  -- The regions before this one, and those behind it.
  have hsplit : m.regions = m.regions.take i ++ m.regions[i] :: m.regions.drop (i + 1) := by
    rw [← List.drop_eq_getElem_cons hi, List.take_append_drop]
  generalize m.regions[i] = r at hsplit
  generalize htake : m.regions.take i = front at hsplit
  generalize m.regions.drop (i + 1) = back at hsplit
  have hfront : front.length = i := by
    rw [← htake, List.length_take, Nat.min_eq_left (by omega)]
  generalize hpre : Memory.ofUInt32 m.regions.length.toUInt32 ++ Memory.ofUInt32 m.padding
    ++ front.flatMap VhostUserMemoryRegion.bytes = pre
  have hlen : pre.length = 8 + 32 * i := by
    rw [← hpre]
    simp only [List.length_append, Memory.length_ofUInt32, length_flatMap_regions, hfront]
  have hbytes : m.bytes = pre ++ (r.bytes ++ back.flatMap VhostUserMemoryRegion.bytes) := by
    rw [VhostUserMemory.bytes, ← hpre, List.append_assoc _ (front.flatMap _), ← List.flatMap_cons,
      ← List.flatMap_append, ← hsplit]
  have hhdr : vhostUserHdrSize = 12 := rfl
  have hphys : msg.mem.load64 (20 + 32 * i) = r.guestPhysAddr := by
    have := load64_field (v := r.guestPhysAddr) pre _ h
      (by simp only [hbytes, VhostUserMemoryRegion.bytes, List.append_assoc]; rfl)
    rwa [hlen, hhdr, ← Nat.add_assoc] at this
  have hsize : msg.mem.load64 (28 + 32 * i) = r.memorySize := by
    have := load64_field (v := r.memorySize) (pre ++ Memory.ofUInt64 r.guestPhysAddr) _ h
      (by simp only [hbytes, VhostUserMemoryRegion.bytes, List.append_assoc]; rfl)
    rw [List.length_append, hlen, hhdr, Memory.length_ofUInt64] at this
    rw [← this]
    congr 1
    omega
  have huser : msg.mem.load64 (36 + 32 * i) = r.userspaceAddr := by
    have := load64_field (v := r.userspaceAddr)
      (pre ++ Memory.ofUInt64 r.guestPhysAddr ++ Memory.ofUInt64 r.memorySize) _ h
      (by simp only [hbytes, VhostUserMemoryRegion.bytes, List.append_assoc]; rfl)
    simp only [List.length_append, hlen, hhdr, Memory.length_ofUInt64] at this
    rw [← this]
    congr 1
    omega
  have hoffset : msg.mem.load64 (44 + 32 * i) = r.mmapOffset := by
    have := load64_field (v := r.mmapOffset)
      (pre ++ Memory.ofUInt64 r.guestPhysAddr ++ Memory.ofUInt64 r.memorySize ++ Memory.ofUInt64 r.userspaceAddr) _ h
      (by simp only [hbytes, VhostUserMemoryRegion.bytes, List.append_assoc]; rfl)
    simp only [List.length_append, hlen, hhdr, Memory.length_ofUInt64] at this
    rw [← this]
    congr 1
    omega
  rw [VhostUserMsg.region, hphys, hsize, huser, hoffset]

theorem nregions_of_payload {m : VhostUserMemory} (h : msg.mem.load vhostUserHdrSize m.bytes.length = m.bytes)
    : msg.nregions = m.regions.length.toUInt32 := by
  apply load32_field [] _ h
  simp only [VhostUserMemory.bytes, List.append_assoc, List.nil_append]
  rfl

theorem reads_of_payload (hpayload : io.payload shmFds = .ok (bytes, fds))
    (h : msg.mem.load vhostUserHdrSize bytes.length = bytes) : io.Reads shmFds msg fds := by
  cases io with
  | setMemTable m =>
    unfold Ioctl.payload at hpayload
    dsimp only at hpayload
    split at hpayload
    . next hlen =>
      cases hpayload
      have hmax : vhostMemoryMaxNregions = 8 := rfl
      refine ⟨?_, fun i r hr => region_of_payload h hr, rfl⟩
      rw [nregions_of_payload h, Nat.toUInt32_eq, UInt32.toNat_ofNat', Nat.mod_eq_of_lt (by omega)]
    . contradiction
  | setFeatures v =>
    cases hpayload
    exact ⟨u64_of_payload h, rfl⟩
  | setLogBase v =>
    cases hpayload
    exact ⟨u64_of_payload h, rfl⟩
  | setVringNum s =>
    cases hpayload
    exact ⟨state_of_payload h, rfl⟩
  | setVringBase s =>
    cases hpayload
    exact ⟨state_of_payload h, rfl⟩
  | setVringAddr a =>
    cases hpayload
    exact ⟨addr_of_payload h, rfl⟩
  | setVringKick f =>
    cases hpayload
    exact ⟨u64_of_payload h, rfl⟩
  | setVringCall f =>
    cases hpayload
    exact ⟨u64_of_payload h, rfl⟩
  | setVringErr f =>
    cases hpayload
    exact ⟨u64_of_payload h, rfl⟩
  | setLogFd fd =>
    cases hpayload
    rfl
  | _ =>
    cases hpayload
    rfl

/--
What a call of `vhost_ioctl` puts into the socket.
-/
def frame (shmFds : Nat → Int) (io : Ioctl) : List UInt8 × List Int :=
  match vhostIoctl shmFds io with
  | .error _ => ([], [])
  | .ok (msg, fds) => (msg.mem.load 0 (vhostUserHdrSize + msg.size.toNat), fds)

theorem payload_of_vhostIoctl {msg : VhostUserMsg} (h : vhostIoctl shmFds io = .ok (msg, fds))
    : ∃ bytes, io.payload shmFds = .ok (bytes, fds) := by
  unfold vhostIoctl at h
  split at h
  . contradiction
  . next bytes fds' hpayload =>
    cases h
    exact ⟨bytes, hpayload⟩

/-- A request whose descriptors are all open is put into the socket. -/
theorem send_frame {msg : VhostUserMsg} {opened : Int → Bool} (h : vhostIoctl shmFds io = .ok (msg, fds))
    (hopened : fds.all opened = true) (s : Socket)
    : 0 ≤ (vhostUserSendFds opened s msg fds).1
      ∧ (vhostUserSendFds opened s msg fds).2 = s ++ [frame shmFds io] := by
  simp only [vhostUserSendFds, hopened, if_true, frame, h]
  exact ⟨Int.natCast_nonneg _, trivial⟩

/-- The first request in the socket is the one that is received. -/
theorem recv_frame (old : VhostUserMsg) (s : Socket) (h : io.payload shmFds = .ok (bytes, fds))
    : ∃ r, vhostUserRecvFds (frame shmFds io :: s) old vhostMemoryMaxNregions = .ok (some r)
      ∧ r.ret = vhostUserHdrSize ∧ r.socket = s ∧ r.msg.request = io.request ∧ r.msg.flags = vhostUserVersion
      ∧ r.fds = fds ∧ io.Reads shmFds r.msg fds := by
  rcases vhostIoctl_eq h with ⟨msg, hmsg, hrequest, hflags, hsize, hload⟩
  have hlen := length_payload h
  rcases recv_send msg old fds vhostMemoryMaxNregions s (by rw [hsize]; exact hlen.1) hlen.2
    with ⟨r, hrecv, hret, hagrees, hfds, hsocket⟩
  refine ⟨r, ?_, hret, hsocket, hagrees.request_eq.trans hrequest, hagrees.flags_eq.trans hflags, hfds, ?_⟩
  . rw [frame, hmsg]
    exact hrecv
  . apply reads_of_payload h
    refine (Memory.load_congr ?_).trans hload
    intro i hi1 hi2
    apply hagrees i
    omega

end VhostUser
