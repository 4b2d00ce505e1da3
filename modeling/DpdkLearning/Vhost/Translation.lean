import Mathlib.Algebra.Order.Ring.Int
import DpdkLearning.Lib.Spans
import DpdkLearning.Vhost.Impl.MemTable

/-!
This module contains the translation of guest addresses with an installed memory table: which addresses go
to the place where their region is mapped.
-/

open Lib

namespace Vhost

/--
A region of a memory table and the address at which it is mapped.
-/
structure Mapping where
  region : VhostUserRegion
  mmapAddr : UInt64
  deriving DecidableEq

namespace Mapping

def span (start : Mapping → UInt64) (m : Mapping) : Span :=
  ⟨(start m).toNat, m.region.size.toNat⟩

def guest (m : Mapping) : UInt64 :=
  m.region.guestAddress

def user (m : Mapping) : UInt64 :=
  m.region.userAddress

/--
Where the backend finds the byte at an address of the region.
-/
def hva (start : Mapping → UInt64) (m : Mapping) (addr : UInt64) : UInt64 :=
  m.mmapAddr + m.region.mmapOffset + (addr - start m)

/--
The region as the backend keeps it.
-/
def kept (m : Mapping) : VhostUserRegion :=
  { m.region with mmapOffset := m.mmapAddr + m.region.mmapOffset - m.region.guestAddress }

end Mapping

def VhostUserMsg.mapping (env : Env) (msg : VhostUserMsg) (i : Fin virtioMaxRegion) : Mapping where
  region := msg.memory.regions[i]
  mmapAddr := mmapAddr env msg.memory.regions[i] msg.fds[i] i

/--
The regions of the message, each with the address at which it is mapped.
-/
def VhostUserMsg.table (env : Env) (msg : VhostUserMsg) : List Mapping :=
  ((List.finRange virtioMaxRegion).take msg.memory.nregions.toNat).map (msg.mapping env)

/--
The address goes where the region that holds it is mapped, and to `0` if there is none.
-/
def Translates (start : Mapping → UInt64) (table : List Mapping) (addr hva : UInt64) : Prop :=
  (∀ m ∈ table, (m.span start).Holds addr.toNat → hva = m.hva start addr)
    ∧ ((∀ m ∈ table, ¬(m.span start).Holds addr.toNat) → hva = 0)

/--
The regions of the table start where they do in one of the two address spaces, are not empty, do not wrap
and share no address.
-/
def WellFormed (start : Mapping → UInt64) (table : List Mapping) : Prop :=
  Layout (2 ^ 64) (Mapping.span start) table

/--
No region of the table is taken for another one at the address because it ends there.
-/
def Unmistaken (start : Mapping → UInt64) (table : List Mapping) (addr : UInt64) : Prop :=
  BorderFree (2 ^ 64) (Mapping.span start) (fun m => m.hva start addr) 0 table addr.toNat

section Loops

variable {env : Env} {msg : VhostUserMsg} {mem mem' : VhostUserMem} {i n : Nat}

theorem scanRegions_eq (hit : VhostUserRegion → Option UInt64) (hn : i + n ≤ virtioMaxRegion)
    : mem.scanRegions hit i n
        = .ok (((((List.finRange virtioMaxRegion).drop i).take n).map
            (fun j => mem.regions[j])).findSome? hit |>.getD 0) := by
  induction n generalizing i with
  | zero => simp [VhostUserMem.scanRegions]
  | succ n ih =>
    have hi : i < virtioMaxRegion := by omega
    unfold VhostUserMem.scanRegions
    rw [dif_pos hi, List.drop_eq_getElem_cons (by simpa using hi)]
    simp only [List.getElem_finRange, List.take_succ_cons, List.map_cons, List.findSome?_cons]
    cases hhit : hit mem.regions[i] with
    | none =>
      simp [hhit, ih (show i + 1 + n ≤ virtioMaxRegion by omega)]
    | some hva =>
      simp [hhit]

theorem installRegions_ok (hn : i + n ≤ virtioMaxRegion)
    : ∃ mem', installRegions env msg mem i n = .ok mem' ∧ mem'.nregions = mem.nregions
        ∧ ∀ j : Fin virtioMaxRegion,
            mem'.regions[j]
              = if i ≤ j.val ∧ j.val < i + n then (msg.mapping env j).kept else mem.regions[j] := by
  induction n generalizing i mem with
  | zero =>
    refine ⟨mem, rfl, rfl, ?_⟩
    intro j
    rw [if_neg (by omega)]
  | succ n ih =>
    have hi : i < virtioMaxRegion := by omega
    unfold installRegions
    rw [dif_pos hi]
    rcases ih (show i + 1 + n ≤ virtioMaxRegion by omega) with ⟨mem', hmem', hnregions, hregions⟩
    refine ⟨mem', hmem', hnregions, ?_⟩
    intro j
    rw [hregions]
    by_cases hij : i = j.val
    . subst hij
      rw [if_neg (by omega), if_pos (by omega)]
      simp [Mapping.kept, VhostUserMsg.mapping]
    . have hset : (mem.regions.set i (msg.mapping env ⟨i, hi⟩).kept)[j] = mem.regions[j] := by
        apply Vector.getElem_set_ne
        exact hij
      simp only [show (i + 1 ≤ j.val ∧ j.val < i + 1 + n) ↔ (i ≤ j.val ∧ j.val < i + (n + 1)) by omega]
      split
      . rfl
      . exact hset

theorem findSome?_ite {α β : Type} {p : α → Prop} [DecidablePred p] {f : α → β} {l : List α}
    : l.findSome? (fun a => if p a then some (f a) else none) = (l.find? (fun a => p a)).map f := by
  induction l with
  | nil => rfl
  | cons a l ih =>
    rw [List.findSome?_cons, List.find?_cons]
    by_cases ha : p a
    . simp [ha]
    . simp [ha, ih]

end Loops

section Lookups

variable {env : Env} {dev : VirtioDev} {msg : VhostUserMsg} {mem : VhostUserMem} {m : Mapping} {addr : UInt64}

theorem touches_guest_iff
    : (m.span Mapping.guest).Touches (2 ^ 64) addr.toNat
        ↔ addr ≤ m.kept.guestAddress + m.kept.size ∧ addr ≥ m.kept.guestAddress := by
  rw [UInt64.le_iff_toNat_le, ge_iff_le, UInt64.le_iff_toNat_le, UInt64.toNat_add]
  exact and_comm

theorem touches_user_iff
    : (m.span Mapping.user).Touches (2 ^ 64) addr.toNat
        ↔ addr ≤ m.kept.userAddress + m.kept.size ∧ addr ≥ m.kept.userAddress := by
  rw [UInt64.le_iff_toNat_le, ge_iff_le, UInt64.le_iff_toNat_le, UInt64.toNat_add]
  exact and_comm

theorem hva_guest : m.hva Mapping.guest addr = addr + m.kept.mmapOffset := by
  simp only [Mapping.hva, Mapping.kept, Mapping.guest]
  grind

theorem hva_user
    : m.hva Mapping.user addr
        = addr + m.kept.mmapOffset + m.kept.guestAddress - m.kept.userAddress := by
  simp only [Mapping.hva, Mapping.kept, Mapping.user]
  grind

/--
The backend keeps the regions of the message, each with the offset of the place where it is mapped.
-/
structure Installed (env : Env) (msg : VhostUserMsg) (mem : VhostUserMem) : Prop where
  nregions : mem.nregions = msg.memory.nregions
  count : msg.memory.nregions.toNat ≤ virtioMaxRegion
  regions : ∀ i : Fin virtioMaxRegion,
    i.val < msg.memory.nregions.toNat → mem.regions[i] = (msg.mapping env i).kept

theorem Installed.map_regions (h : Installed env msg mem)
    : ((List.finRange virtioMaxRegion).take msg.memory.nregions.toNat).map (fun i => mem.regions[i])
        = (msg.table env).map Mapping.kept := by
  rw [VhostUserMsg.table, List.map_map]
  apply List.map_congr_left
  intro i hi
  rcases List.mem_take_iff_getElem.mp hi with ⟨k, hk, rfl⟩
  apply h.regions
  have hk : k < msg.memory.nregions.toNat := by omega
  simpa using hk

theorem Installed.scanRegions (h : Installed env msg mem) {hit : VhostUserRegion → Option UInt64}
    {p : Mapping → Prop} [DecidablePred p] {f : Mapping → UInt64}
    (hhit : ∀ m : Mapping, hit m.kept = if p m then some (f m) else none)
    : mem.scanRegions hit 0 mem.nregions.toNat
        = .ok (((msg.table env).find? (fun m => p m)).elim 0 f) := by
  have hkept : hit ∘ Mapping.kept = fun m => if p m then some (f m) else none := funext hhit
  rw [h.nregions, scanRegions_eq hit (by simpa using h.count)]
  rw [List.drop_zero, h.map_regions, List.findSome?_map, hkept, findSome?_ite]
  cases (msg.table env).find? (fun m => p m) with
  | none => rfl
  | some m => rfl

theorem Installed.gpaToHva (h : Installed env msg mem)
    : gpaToHva { dev with mem := some mem } addr
        = .ok ((scan (2 ^ 64) (Mapping.span Mapping.guest) (msg.table env) addr.toNat).elim 0
            (fun m => m.hva Mapping.guest addr)) := by
  apply h.scanRegions
  intro m
  rw [hva_guest]
  simp only [touches_guest_iff]

theorem Installed.gvaToHva (h : Installed env msg mem)
    : gvaToHva { dev with mem := some mem } addr
        = .ok ((scan (2 ^ 64) (Mapping.span Mapping.user) (msg.table env) addr.toNat).elim 0
            (fun m => m.hva Mapping.user addr)) := by
  apply h.scanRegions
  intro m
  rw [hva_user]
  simp only [touches_user_iff]

end Lookups

section Installing

variable {env : Env} {dev : VirtioDev} {msg : VhostUserMsg} {start : Mapping → UInt64} {addr : UInt64}

theorem vhostUserSetMemTable_installed (hcount : msg.memory.nregions.toNat ≤ virtioMaxRegion)
    (hmem : dev.mem.isSome ∨ env.malloc = true)
    : ∃ mem, vhostUserSetMemTable env dev msg = .ok (0, { dev with mem := some mem })
        ∧ Installed env msg mem := by
  have hinstall : ∀ mem : VhostUserMem, ∃ mem',
      installRegions env msg { mem with nregions := msg.memory.nregions } 0 msg.memory.nregions.toNat
        = .ok mem' ∧ Installed env msg mem' := by
    intro mem
    have hn : 0 + msg.memory.nregions.toNat ≤ virtioMaxRegion := by omega
    rcases @installRegions_ok env msg { mem with nregions := msg.memory.nregions } 0 _ hn
      with ⟨mem', hmem', hnregions, hregions⟩
    refine ⟨mem', hmem', hnregions, hcount, ?_⟩
    intro i hi
    rw [hregions, if_pos (by omega)]
  unfold vhostUserSetMemTable
  cases hold : dev.mem with
  | some mem =>
    rcases hinstall mem with ⟨mem', hmem', hinstalled⟩
    refine ⟨mem', ?_, hinstalled⟩
    simp [hmem', bind, Except.bind, pure, Except.pure]
  | none =>
    have hmalloc : env.malloc = true := by simpa [hold] using hmem
    rcases hinstall vhostUserMemZero with ⟨mem', hmem', hinstalled⟩
    refine ⟨mem', ?_, hinstalled⟩
    simp [hmalloc, hmem', bind, Except.bind, pure, Except.pure]

theorem translates_scan_iff (hwf : WellFormed start (msg.table env))
    : Translates start (msg.table env) addr
          ((scan (2 ^ 64) (Mapping.span start) (msg.table env) addr.toNat).elim 0
            (fun m => m.hva start addr))
        ↔ Unmistaken start (msg.table env) addr := by
  unfold Translates Unmistaken
  rw [← Layout.scan_eq_lookup_iff hwf addr.toNat_lt, Layout.eq_lookup_iff hwf]

theorem translates_offset {m : Mapping} {table : List Mapping} {offset hva : UInt64}
    (hwf : WellFormed start table) (hm : m ∈ table) (hoffset : offset < m.region.size)
    (h : Translates start table (start m + offset) hva)
    : hva = m.mmapAddr + m.region.mmapOffset + offset := by
  rcases hwf.fits m hm with ⟨_, _, hend⟩
  have hlt : offset.toNat < m.region.size.toNat := UInt64.lt_iff_toNat_lt.mp hoffset
  have hholds : (m.span start).Holds (start m + offset).toNat := by
    simp only [Mapping.span] at hend
    rw [UInt64.toNat_add, Nat.mod_eq_of_lt (by omega)]
    simp only [Span.Holds, Mapping.span]
    omega
  rw [h.1 m hm hholds, Mapping.hva]
  grind

end Installing

/--
An installed table sends an address to the byte of the region that holds it exactly where no region ends
in the way, and a byte of a region has one place under both of its addresses.
-/
theorem addressTranslation_iff {env : Env} {dev : VirtioDev} {msg : VhostUserMsg}
    (hcount : msg.memory.nregions.toNat ≤ virtioMaxRegion)
    (hmem : dev.mem.isSome ∨ env.malloc = true)
    (hguest : WellFormed Mapping.guest (msg.table env))
    (huser : WellFormed Mapping.user (msg.table env))
    : ∃ dev', vhostUserSetMemTable env dev msg = .ok (0, dev')
        ∧ (∀ addr, (∃ hva, gpaToHva dev' addr = .ok hva
              ∧ Translates Mapping.guest (msg.table env) addr hva)
            ↔ Unmistaken Mapping.guest (msg.table env) addr)
        ∧ (∀ addr, (∃ hva, gvaToHva dev' addr = .ok hva
              ∧ Translates Mapping.user (msg.table env) addr hva)
            ↔ Unmistaken Mapping.user (msg.table env) addr)
        ∧ ∀ m ∈ msg.table env, ∀ offset, offset < m.region.size →
            Unmistaken Mapping.guest (msg.table env) (m.guest + offset) →
            Unmistaken Mapping.user (msg.table env) (m.user + offset) →
            gpaToHva dev' (m.guest + offset) = gvaToHva dev' (m.user + offset) := by
  rcases vhostUserSetMemTable_installed hcount hmem with ⟨mem, hset, hinstalled⟩
  refine ⟨_, hset, ?_, ?_, ?_⟩
  . intro addr
    rw [hinstalled.gpaToHva, ← translates_scan_iff hguest]
    simp
  . intro addr
    rw [hinstalled.gvaToHva, ← translates_scan_iff huser]
    simp
  . intro m hm offset hoffset hg hu
    rw [← translates_scan_iff hguest] at hg
    rw [← translates_scan_iff huser] at hu
    rw [hinstalled.gpaToHva, hinstalled.gvaToHva]
    rw [translates_offset hguest hm hoffset hg, translates_offset huser hm hoffset hu]

/--
Two regions of 4096 bytes that follow one another in the guest.
-/
def adjacentMsg : VhostUserMsg where
  memory :=
    { nregions := 2
      regions := #v[⟨0, 4096, 0x100000, 0⟩, ⟨4096, 4096, 0x200000, 0⟩, ⟨0, 0, 0, 0⟩, ⟨0, 0, 0, 0⟩,
        ⟨0, 0, 0, 0⟩, ⟨0, 0, 0, 0⟩, ⟨0, 0, 0, 0⟩, ⟨0, 0, 0, 0⟩] }
  fds := .replicate virtioMaxRegion 3

def spacedEnv : Env where
  malloc := true
  mmap i _ _ := 0x7f0000000000 + 0x40000000 * i.toUInt64

theorem wellFormed_adjacentMsg (start : Mapping → UInt64)
    (hstart : start = Mapping.guest ∨ start = Mapping.user)
    : WellFormed start (adjacentMsg.table spacedEnv) := by
  rcases hstart with rfl | rfl
  all_goals
    constructor
    . unfold Span.Fits
      decide
    . unfold Span.Apart
      decide

theorem addressTranslation_iff_adjacent
    : ∃ dev', vhostUserSetMemTable spacedEnv ⟨none⟩ adjacentMsg = .ok (0, dev')
        ∧ (∀ addr, (∃ hva, gpaToHva dev' addr = .ok hva
              ∧ Translates Mapping.guest (adjacentMsg.table spacedEnv) addr hva)
            ↔ Unmistaken Mapping.guest (adjacentMsg.table spacedEnv) addr)
        ∧ (∀ addr, (∃ hva, gvaToHva dev' addr = .ok hva
              ∧ Translates Mapping.user (adjacentMsg.table spacedEnv) addr hva)
            ↔ Unmistaken Mapping.user (adjacentMsg.table spacedEnv) addr)
        ∧ ∀ m ∈ adjacentMsg.table spacedEnv, ∀ offset, offset < m.region.size →
            Unmistaken Mapping.guest (adjacentMsg.table spacedEnv) (m.guest + offset) →
            Unmistaken Mapping.user (adjacentMsg.table spacedEnv) (m.user + offset) →
            gpaToHva dev' (m.guest + offset) = gvaToHva dev' (m.user + offset) :=
  addressTranslation_iff (by decide) (.inr rfl) (wellFormed_adjacentMsg _ (.inl rfl))
    (wellFormed_adjacentMsg _ (.inr rfl))

/--
The first byte of the second region goes behind the mapping of the first one.
-/
theorem not_addressTranslation
    : ∃ env dev msg dev', msg.memory.nregions.toNat ≤ virtioMaxRegion
        ∧ WellFormed Mapping.guest (msg.table env) ∧ WellFormed Mapping.user (msg.table env)
        ∧ vhostUserSetMemTable env dev msg = .ok (0, dev')
        ∧ gpaToHva dev' 4096 = .ok 0x7f0000001000
        ∧ gvaToHva dev' 0x200000 = .ok 0x7f0040000000
        ∧ ¬Translates Mapping.guest (msg.table env) 4096 0x7f0000001000 := by
  refine ⟨spacedEnv, ⟨none⟩, adjacentMsg, _, by decide, wellFormed_adjacentMsg _ (.inl rfl),
    wellFormed_adjacentMsg _ (.inr rfl), rfl, by decide, by decide, ?_⟩
  rintro ⟨hheld, _⟩
  have := hheld ⟨⟨4096, 4096, 0x200000, 0⟩, 0x7f0040000000⟩ (by decide) (by decide)
  contradiction

end Vhost
