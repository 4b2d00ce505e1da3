import Mathlib.Data.Finset.Card
import Mathlib.Data.Finset.Image
import Mathlib.Data.Finset.Range
import DpdkLearning.Lib.Machine
import DpdkLearning.Stack.Lemmas.Tables

/-!
This module contains the ARP table as a map: over any run of insertions and lookups it is a list without
duplicates that the bounded scan sees all of, and it keeps the first address entered for each ip, as long as its
counter does not overflow.
-/

open Lib

namespace NgStack

inductive ArpCall where
  | insert (malloc : Bool) (ip : UInt32) (mac : MacAddr)
  | lookup (dip : UInt32)

inductive ArpOut where
  | inserted (ret : Int)
  | found (hwaddr : Option MacAddr)

/--
The table of `arp_table_instance`, with the counter of the source.
-/
def ArpTable.init : ArpTable Int32 where
  entries := []
  count := 0

def arpMachine : Machine (ArpTable Int32) ArpCall ArpOut Empty where
  step arpt
    | .insert malloc ip mac =>
      .ok ((ngArpEntryInsert malloc arpt ip mac).2, .inserted (ngArpEntryInsert malloc arpt ip mac).1)
    | .lookup dip => .ok (arpt, .found (ngGetDstMacaddr arpt dip))

abbrev ArpStep := Edge (ArpTable Int32) ArpCall ArpOut

abbrev ArpRun := Machine.Run arpMachine

/--
What the call enters for the ip, if there is memory for it.
-/
def ArpCall.enters (dip : UInt32) : ArpCall → Option MacAddr
  | .insert true ip mac => if dip = ip then some mac else none
  | _ => none

/--
The address that the first insertion for the ip has entered.
-/
def firstMac (calls : List ArpCall) (dip : UInt32) : Option MacAddr :=
  calls.findSome? (ArpCall.enters dip)

/--
The ip that the call has memory for.
-/
def ArpCall.ip? : ArpCall → Option UInt32
  | .insert true ip _ => some ip
  | _ => none

/--
The ips that some call has memory for.
-/
def entered (calls : List ArpCall) : Finset UInt32 :=
  (calls.filterMap ArpCall.ip?).toFinset

/--
The table as the map from each ip to the address first entered for it.
-/
structure ArpTable.IsMap (arpt : ArpTable Int32) (map : UInt32 → Option MacAddr) : Prop where
  nodup : (arpt.entries.map ArpEntry.ip).Nodup
  counted : arpt.count.toInt = arpt.entries.length
  scan : ∀ dip, ngGetDstMacaddr arpt dip
    = (arpt.entries.find? (fun entry => dip == entry.ip)).map ArpEntry.hwaddr
  lookup : ∀ dip, ngGetDstMacaddr arpt dip = map dip

namespace ArpTable

variable {arpt : ArpTable Int32} {map : UInt32 → Option MacAddr} {ip dip : UInt32} {calls : List ArpCall}

/--
The table with a counter that does not overflow.
-/
def widen (arpt : ArpTable Int32) : ArpTable Int where
  entries := arpt.entries
  count := arpt.count.toInt

theorem toInt_sub_one {count : Int32} (h : 0 < count.toInt) : (count - 1).toInt = count.toInt - 1 := by
  have hlt := count.toInt_lt
  rw [Int32.toInt_sub, Int32.toInt_one]
  apply Int.bmod_eq_of_le
  . omega
  . omega

theorem toInt_add_one {count : Int32} (h0 : 0 ≤ count.toInt) (h : count.toInt < intMax)
    : (count + 1).toInt = count.toInt + 1 := by
  have hmax : intMax = 2147483647 := rfl
  rw [Int32.toInt_add, Int32.toInt_one]
  apply Int.bmod_eq_of_le
  . omega
  . omega

/-- A scan that counts down to zero does not get below it. -/
theorem go_eq_widen {count : Int32} (h : 0 ≤ count.toInt) (entries : List ArpEntry) (dip : UInt32)
    : ngGetDstMacaddr.go dip count entries = ngGetDstMacaddr.go dip count.toInt entries := by
  induction entries generalizing count with
  | nil => rfl
  | cons entry entries ih =>
    have hzero : count = 0 ↔ count.toInt = 0 := by
      rw [← Int32.toInt_inj, Int32.toInt_zero]
    unfold ngGetDstMacaddr.go
    by_cases hc : count.toInt = 0
    . rw [if_pos (hzero.mpr hc), if_pos hc]
    . rw [if_neg (mt hzero.mp hc), if_neg hc, ih (by rw [toInt_sub_one (by omega)]; omega),
        toInt_sub_one (by omega)]

theorem lookup_eq_widen (h : 0 ≤ arpt.count.toInt) (dip : UInt32)
    : ngGetDstMacaddr arpt dip = ngGetDstMacaddr arpt.widen dip :=
  go_eq_widen h arpt.entries dip

theorem scan_of_counted (h : arpt.count.toInt = arpt.entries.length) (dip : UInt32)
    : ngGetDstMacaddr arpt dip
        = (arpt.entries.find? (fun entry => dip == entry.ip)).map ArpEntry.hwaddr := by
  rw [lookup_eq_widen (by omega)]
  have hcounted : arpt.widen.Counted := h
  exact hcounted.scan dip

namespace IsMap

theorem init : ArpTable.init.IsMap (firstMac []) where
  nodup := List.nodup_nil
  counted := rfl
  scan := fun _ => rfl
  lookup := fun _ => rfl

theorem isSome_iff (h : arpt.IsMap map) (dip : UInt32)
    : (map dip).isSome ↔ dip ∈ arpt.entries.map ArpEntry.ip := by
  rw [← h.lookup, h.scan, Option.isSome_map, List.find?_isSome, List.mem_map]
  simp only [beq_iff_eq, @eq_comm _ dip]

/-- A new entry in front of the others. -/
theorem cons (h : arpt.IsMap map) (hroom : arpt.entries.length < intMax) (hnone : map ip = none) (mac : MacAddr)
    : IsMap ⟨{ ip, hwaddr := mac } :: arpt.entries, arpt.count + 1⟩
        (fun dip => (map dip).or (if dip = ip then some mac else none)) := by
  have hcount : (arpt.count + 1).toInt = (({ ip, hwaddr := mac } : ArpEntry) :: arpt.entries).length := by
    have hcounted := h.counted
    rw [toInt_add_one (by omega) (by omega), h.counted]
    rfl
  refine ⟨List.nodup_cons.mpr ⟨?_, h.nodup⟩, hcount, scan_of_counted hcount, ?_⟩
  . rw [← h.isSome_iff, hnone]
    simp
  . intro dip
    rw [scan_of_counted hcount, List.find?_cons, ← h.lookup dip, h.scan]
    dsimp only
    by_cases heq : dip = ip
    . subst heq
      rw [← h.scan, h.lookup, hnone]
      simp
    . rw [beq_eq_false_iff_ne.mpr heq, if_neg heq, Option.or_none]

theorem insert (h : arpt.IsMap map) (malloc : Bool) (ip : UInt32) (mac : MacAddr)
    (hroom : malloc = true → map ip = none → arpt.entries.length < intMax)
    : (ngArpEntryInsert malloc arpt ip mac).2.IsMap
        (fun dip => (map dip).or ((ArpCall.insert malloc ip mac).enters dip)) := by
  -- Refused memory and an ip that is known leave the table alone. The map must not change then, either.
  have hsame : (∀ dip, (map dip).or ((ArpCall.insert malloc ip mac).enters dip) = map dip)
      → arpt.IsMap (fun dip => (map dip).or ((ArpCall.insert malloc ip mac).enters dip)) := by
    intro hkept
    exact ⟨h.nodup, h.counted, h.scan, fun dip => (h.lookup dip).trans (hkept dip).symm⟩
  unfold ngArpEntryInsert
  rw [h.lookup ip]
  cases malloc with
  | false =>
    have hkept := hsame (fun dip => Option.or_none)
    cases map ip with
    | none => exact hkept
    | some hwaddr => exact hkept
  | true =>
    cases hmap : map ip with
    | none => exact h.cons (hroom rfl hmap) hmap mac
    | some hwaddr =>
      apply hsame
      intro dip
      simp only [ArpCall.enters]
      split
      . next heq => rw [heq, hmap, Option.some_or]
      . apply Option.or_none

end IsMap

end ArpTable

theorem firstMac_append (calls : List ArpCall) (call : ArpCall) (dip : UInt32)
    : firstMac (calls ++ [call]) dip = (firstMac calls dip).or (call.enters dip) := by
  simp only [firstMac, List.findSome?_append]
  cases h : call.enters dip <;> simp [h]

theorem entered_append (calls calls' : List ArpCall) : entered (calls ++ calls') = entered calls ∪ entered calls' := by
  rw [entered, List.filterMap_append, List.toFinset_append]
  rfl

theorem card_entered_le (calls calls' : List ArpCall) : (entered calls).card ≤ (entered (calls ++ calls')).card := by
  apply Finset.card_le_card
  rw [entered_append]
  exact Finset.subset_union_left

theorem isSome_firstMac (calls : List ArpCall) (dip : UInt32) : (firstMac calls dip).isSome ↔ dip ∈ entered calls := by
  have hcall : ∀ call : ArpCall, (call.enters dip).isSome ↔ call.ip? = some dip := by
    intro call
    rcases call with ⟨_ | _, ip, mac⟩ | _
    . simp [ArpCall.enters, ArpCall.ip?]
    . by_cases heq : dip = ip <;> simp [ArpCall.enters, ArpCall.ip?, heq, eq_comm]
    . simp [ArpCall.enters, ArpCall.ip?]
  rw [firstMac, List.findSome?_isSome_iff, entered, List.mem_toFinset, List.mem_filterMap]
  simp only [hcall]

/-- There is an entry for each ip that some call had memory for. -/
theorem ArpTable.IsMap.length_eq {arpt : ArpTable Int32} {calls : List ArpCall} (h : arpt.IsMap (firstMac calls))
    : arpt.entries.length = (entered calls).card := by
  have hips : (arpt.entries.map ArpEntry.ip).toFinset = entered calls := by
    ext dip
    rw [List.mem_toFinset, ← h.isSome_iff, isSome_firstMac]
  rw [← hips, List.toFinset_card_of_nodup h.nodup, List.length_map]

theorem isMap_of_step {arpt arpt' : ArpTable Int32} {calls : List ArpCall} {call : ArpCall} {out : ArpOut}
    (h : arpt.IsMap (firstMac calls)) (hfew : (entered (calls ++ [call])).card ≤ intMax)
    (hstep : arpMachine.step arpt call = .ok (arpt', out)) : arpt'.IsMap (firstMac (calls ++ [call])) := by
  have hmap : firstMac (calls ++ [call]) = fun dip => (firstMac calls dip).or (call.enters dip) := by
    funext dip
    apply firstMac_append
  rw [hmap]
  cases call with
  | insert malloc ip mac =>
    cases hstep
    apply h.insert
    rintro rfl hnone
    have hnew : ip ∉ entered calls := by
      rw [← isSome_firstMac, hnone]
      simp
    have hip : entered [.insert true ip mac] = {ip} := rfl
    rw [entered_append, hip, Finset.union_comm, ← Finset.insert_eq, Finset.card_insert_of_notMem hnew] at hfew
    rw [h.length_eq]
    exact hfew
  | lookup dip =>
    cases hstep
    simpa [ArpCall.enters] using h

theorem isMap_of_run {tr : List ArpStep} {arpt : ArpTable Int32} (h : ArpRun .init tr arpt)
    (hfew : (entered (tr.map Edge.act)).card ≤ intMax) : arpt.IsMap (firstMac (tr.map Edge.act)) := by
  have hall : (entered (tr.map Edge.act)).card ≤ intMax → arpt.IsMap (firstMac (tr.map Edge.act)) := by
    apply h.history (P := fun tr arpt => (entered (tr.map Edge.act)).card ≤ intMax
      → arpt.IsMap (firstMac (tr.map Edge.act)))
    . intro _
      exact .init
    . intro tr t a o u _ hmap hstep hfew
      rw [List.map_append] at hfew ⊢
      exact isMap_of_step (hmap (Nat.le_trans (card_entered_le _ _) hfew)) hfew hstep
  exact hall hfew

theorem arpMachine_total (arpt : ArpTable Int32) (call : ArpCall)
    : ∃ arpt' out, arpMachine.step arpt call = .ok (arpt', out) := by
  cases call with
  | insert => exact ⟨_, _, rfl⟩
  | lookup => exact ⟨_, _, rfl⟩

/--
Whatever is inserted and looked up, with memory or without, the table is the map of the first addresses
entered, and so is every answer on the way, as long as the ips that are entered can be counted by an `int`.
-/
theorem arpTable_isMap (calls : List ArpCall) (hfew : (entered calls).card ≤ intMax)
    : ∃ tr arpt, ArpRun .init tr arpt ∧ tr.map Edge.act = calls ∧ arpt.IsMap (firstMac calls)
      ∧ ∀ past e rest, tr = past ++ e :: rest → ∀ dip, e.act = .lookup dip
        → e.out = .found (firstMac (past.map Edge.act) dip) := by
  rcases Machine.exists_run_of_total arpMachine_total .init calls with ⟨tr, arpt, hrun, rfl⟩
  refine ⟨tr, arpt, hrun, rfl, isMap_of_run hrun hfew, ?_⟩
  rintro past e rest rfl dip hact
  rcases hrun.at_edge with ⟨hpast, hstep, _⟩
  rw [hact] at hstep
  have hle : (entered (past.map Edge.act)).card ≤ intMax := by
    rw [List.map_append] at hfew
    exact Nat.le_trans (card_entered_le _ _) hfew
  have hlookup := (isMap_of_run hpast hle).lookup dip
  simp only [arpMachine, Except.ok.injEq, Prod.mk.injEq] at hstep
  rw [← hstep.2, hlookup]

/-- One ip is entered twice, another one has no memory the first time. -/
theorem arpTable_isMap_two
    : ∃ tr arpt, ArpRun .init tr arpt
      ∧ tr.map Edge.act = [.insert true 1 (.replicate 6 1), .insert false 2 (.replicate 6 2),
        .insert true 1 (.replicate 6 3), .lookup 2, .insert true 2 (.replicate 6 4)]
      ∧ arpt.count.toInt = 2 ∧ ngGetDstMacaddr arpt 1 = some (.replicate 6 1)
      ∧ ngGetDstMacaddr arpt 2 = some (.replicate 6 4) := by
  let calls : List ArpCall :=
    [.insert true 1 (.replicate 6 1), .insert false 2 (.replicate 6 2), .insert true 1 (.replicate 6 3), .lookup 2,
      .insert true 2 (.replicate 6 4)]
  have hcard : (entered calls).card = 2 := by
    decide
  rcases arpTable_isMap calls (by rw [hcard]; decide) with ⟨tr, arpt, hrun, hacts, hmap, _⟩
  refine ⟨tr, arpt, hrun, hacts, ?_, ?_, ?_⟩
  . rw [hmap.counted, hmap.length_eq, hcard]
    rfl
  . rw [hmap.lookup]
    decide
  . rw [hmap.lookup]
    decide

/--
An insertion for each of the first `n` ips.
-/
def sweep (n : Nat) (mac : MacAddr) : List ArpCall :=
  (List.range n).map (fun i => .insert true (UInt32.ofNat i) mac)

theorem sweep_succ (n : Nat) (mac : MacAddr)
    : sweep (n + 1) mac = sweep n mac ++ [.insert true (UInt32.ofNat n) mac] := by
  rw [sweep, List.range_succ, List.map_append]
  rfl

theorem ofNat_inj {i j : Nat} (hi : i < UInt32.size) (hj : j < UInt32.size) (h : UInt32.ofNat i = UInt32.ofNat j)
    : i = j := by
  have := congrArg UInt32.toNat h
  rwa [UInt32.toNat_ofNat', UInt32.toNat_ofNat', Nat.mod_eq_of_lt hi, Nat.mod_eq_of_lt hj] at this

theorem mem_entered_sweep {n : Nat} {mac : MacAddr} {ip : UInt32}
    : ip ∈ entered (sweep n mac) ↔ ∃ i < n, UInt32.ofNat i = ip := by
  rw [entered, List.mem_toFinset, List.mem_filterMap]
  simp [sweep, ArpCall.ip?]

theorem card_entered_sweep {n : Nat} (h : n ≤ UInt32.size) (mac : MacAddr) : (entered (sweep n mac)).card = n := by
  have heq : entered (sweep n mac) = (Finset.range n).image UInt32.ofNat := by
    ext ip
    rw [mem_entered_sweep]
    simp
  rw [heq, Finset.card_image_of_injOn, Finset.card_range]
  intro i hi j hj hij
  exact ofNat_inj (Nat.lt_of_lt_of_le (Finset.mem_range.mp hi) h) (Nat.lt_of_lt_of_le (Finset.mem_range.mp hj) h) hij

/-- With as many entries as an `int` can count one more makes the counter negative. -/
theorem not_arpTable_isMap
    : ∃ tr arpt, ArpRun .init tr arpt ∧ tr.map Edge.act = sweep (intMax + 1) (.replicate 6 1)
      ∧ arpt.count.toInt ≠ arpt.entries.length := by
  have hcard := card_entered_sweep (show intMax ≤ UInt32.size by decide) (.replicate 6 1)
  rcases Machine.exists_run_of_total arpMachine_total .init (sweep intMax (.replicate 6 1)) with ⟨tr, arpt, hrun, hacts⟩
  have hmap := isMap_of_run hrun (by rw [hacts, hcard])
  have hlen := hmap.length_eq
  rw [hacts, hcard] at hlen
  -- The last of the ips is not among those before it.
  have hnew : ngGetDstMacaddr arpt (UInt32.ofNat intMax) = none := by
    rw [hmap.lookup, ← Option.not_isSome_iff_eq_none, isSome_firstMac, hacts, mem_entered_sweep]
    rintro ⟨i, hi, heq⟩
    exact absurd (ofNat_inj (Nat.lt_trans hi (by decide)) (by decide) heq) (Nat.ne_of_lt hi)
  refine ⟨_, _, hrun.snoc (a := .insert true (UInt32.ofNat intMax) (.replicate 6 1)) rfl, ?_, ?_⟩
  . rw [List.map_append, hacts, sweep_succ]
    rfl
  . have hlt := (arpt.count + 1).toInt_lt
    have hmax : intMax = 2147483647 := rfl
    rw [ngArpEntryInsert, hnew]
    dsimp only
    rw [if_pos rfl, List.length_cons, hlen]
    dsimp only
    rw [hmax]
    omega

end NgStack
