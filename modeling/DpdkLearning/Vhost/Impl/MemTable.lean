/-!
This module contains the memory table that the vhost-user backend of `vhost.c` keeps of its guest and the
translation of the addresses of the guest into its own.
-/

namespace Vhost

def virtioMaxRegion : Nat := 8

structure VhostUserRegion where
  guestAddress : UInt64
  size : UInt64
  userAddress : UInt64
  mmapOffset : UInt64
  deriving DecidableEq, Repr

structure VhostUserMem where
  nregions : UInt32
  regions : Vector VhostUserRegion virtioMaxRegion
  deriving DecidableEq, Repr

structure VhostUserMsg where
  memory : VhostUserMem
  fds : Vector Int32 virtioMaxRegion

structure VirtioDev where
  /-- `none` for `NULL` -/
  mem : Option VhostUserMem
  deriving DecidableEq, Repr

inductive Fault where
  | nullPointer
  | outOfBounds
  deriving DecidableEq, Repr

/--
What the operating system answers while one message is handled. `mmap` is given the number of the call,
the length and the file descriptor.
-/
structure Env where
  malloc : Bool
  mmap : Nat → UInt64 → Int32 → UInt64

/--
The first of the `n` regions from `i` on that the address hits.
-/
def VhostUserMem.scanRegions (mem : VhostUserMem) (hit : VhostUserRegion → Option UInt64) (i : Nat)
    : Nat → Except Fault UInt64
  | 0 => .ok 0
  | n + 1 =>
    if h : i < virtioMaxRegion then
      match hit mem.regions[i] with
      | some hva => .ok hva
      | none => mem.scanRegions hit (i + 1) n
    else
      .error .outOfBounds

def gpaToHva (dev : VirtioDev) (gpaAddr : UInt64) : Except Fault UInt64 :=
  match dev.mem with
  | none => .error .nullPointer
  | some mem =>
    mem.scanRegions
      (fun region =>
        if gpaAddr ≤ region.guestAddress + region.size ∧ gpaAddr ≥ region.guestAddress then
          some (gpaAddr + region.mmapOffset)
        else
          none)
      0 mem.nregions.toNat

def gvaToHva (dev : VirtioDev) (gvaAddr : UInt64) : Except Fault UInt64 :=
  match dev.mem with
  | none => .error .nullPointer
  | some mem =>
    mem.scanRegions
      (fun region =>
        if gvaAddr ≤ region.userAddress + region.size ∧ gvaAddr ≥ region.userAddress then
          some (gvaAddr + region.mmapOffset + region.guestAddress - region.userAddress)
        else
          none)
      0 mem.nregions.toNat

def roundup (x y : UInt64) : UInt64 :=
  (x + y - 1) &&& ~~~(y - 1)

/--
The address at which `mmap` puts the region.
-/
def mmapAddr (env : Env) (region : VhostUserRegion) (fd : Int32) (i : Nat) : UInt64 :=
  let size := roundup (region.size + region.mmapOffset) ((2 : UInt64) <<< 20)
  env.mmap i size fd

/--
The loop of `vhost_user_set_mem_table` over the `n` regions from `i` on.
-/
def installRegions (env : Env) (msg : VhostUserMsg) (mem : VhostUserMem) (i : Nat)
    : Nat → Except Fault VhostUserMem
  | 0 => .ok mem
  | n + 1 =>
    if h : i < virtioMaxRegion then
      let region := msg.memory.regions[i]
      let mmapOffset := mmapAddr env region msg.fds[i] i + region.mmapOffset - region.guestAddress
      installRegions env msg { mem with regions := mem.regions.set i { region with mmapOffset } } (i + 1) n
    else
      .error .outOfBounds

def vhostUserMemZero : VhostUserMem where
  nregions := 0
  regions := .replicate virtioMaxRegion ⟨0, 0, 0, 0⟩

def vhostUserSetMemTable (env : Env) (dev : VirtioDev) (msg : VhostUserMsg)
    : Except Fault (Int × VirtioDev) := do
  let mem ←
    match dev.mem with
    | some mem => .ok mem
    | none => if env.malloc then .ok vhostUserMemZero else .error .nullPointer
  let mem := { mem with nregions := msg.memory.nregions }
  let mem ← installRegions env msg mem 0 msg.memory.nregions.toNat
  return (0, { dev with mem := some mem })

end Vhost
