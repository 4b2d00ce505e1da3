import DpdkLearning.Lib.Owned
import DpdkLearning.Stack.Lemmas.Descriptors
import DpdkLearning.Stack.Lemmas.FdTable

/-!
This module contains the ownership of file descriptors: whether what the sockets, the streams and the
event poll carry agrees with the bitmap, and which steps keep the two in agreement.
-/

open Lib

namespace NgStack

/--
The descriptor an object owns, which a negative `fd` is not.
-/
def Stack.owns (s : Stack) (o : Obj) : Option Nat :=
  (s.carries o).bind Int.toNat?

/--
The descriptors are in order: no two objects carry the same one, the bitmap shows the ones that are
carried, and each denotes the object that carries it.
-/
structure FdInv (s : Stack) : Prop where
  unique : ∀ {o o' fd}, 0 ≤ fd → s.carries o = some fd → s.carries o' = some fd → o = o'
  used_iff : ∀ {fd : Nat}, fdUsed s.fdTable fd ↔ ∃ o, s.carries o = some (fd : Int)
  lookup : ∀ {o fd}, 0 ≤ fd → s.carries o = some fd
    → (getHostinfoFromfd s fd).map Hostinfo.obj = some o

theorem toNat?_eq_some_iff (fd : Int) (n : Nat) : fd.toNat? = some n ↔ fd = n := by
  cases fd with
  | ofNat m =>
    simp only [Int.toNat?, Option.some.injEq, Int.ofNat_eq_natCast]
    omega
  | negSucc m => simp [Int.toNat?]

theorem owns_eq_some_iff (s : Stack) (o : Obj) (fd : Nat)
    : s.owns o = some fd ↔ s.carries o = some (fd : Int) := by
  unfold Stack.owns
  rw [Option.bind_eq_some_iff]
  constructor
  . rintro ⟨x, hx, hfd⟩
    rw [toNat?_eq_some_iff] at hfd
    rw [hx, hfd]
  . intro h
    exact ⟨fd, h, (toNat?_eq_some_iff _ _).mpr rfl⟩

theorem fdInv_iff_owned (s : Stack) : FdInv s ↔ Owned s.owns (fdUsed s.fdTable) := by
  constructor
  . intro h
    constructor
    . intro o o' fd ho ho'
      rw [owns_eq_some_iff] at ho ho'
      exact h.unique (Int.natCast_nonneg fd) ho ho'
    . intro fd
      simp only [owns_eq_some_iff]
      exact h.used_iff
  . intro h
    have hunique : ∀ {o o' fd}, 0 ≤ fd → s.carries o = some fd → s.carries o' = some fd → o = o' := by
      intro o o' fd hfd ho ho'
      rcases Int.eq_ofNat_of_zero_le hfd with ⟨n, rfl⟩
      rw [← owns_eq_some_iff] at ho ho'
      exact h.unique ho ho'
    refine ⟨hunique, ?_, ?_⟩
    . intro fd
      rw [h.used_iff]
      simp only [owns_eq_some_iff]
    . intro o fd hfd ho
      rcases exists_getHostinfoFromfd ho with ⟨i, hi⟩
      rw [hi, Option.map_some, hunique hfd (carries_of_getHostinfoFromfd hi) ho]

/--
The step does not lose track of a descriptor: a call that fails or makes no object takes none, the
event poll is not replaced, a connection is closed only while it carries none, and the same goes for
one that ends with the last acknowledgement. What gives back the descriptor -1 does not clear the bit of
another one.
-/
def fdCond (s : Stack) : Act → Bool
  | .nsocket env type => (getFdFrombitmap s.fdTable).1 == -1 || nsocketCreates env s type
  | .nclose env fd =>
    match getHostinfoFromfd s fd with
    | some (.host _ host) => host.protocol != ipprotoUdp || !spills s.fdTable fd
    | some (.stream _ st) =>
      if st.status = .listen then
        decide (fd < 0)
      else
        !env.rteMalloc 0 || (decide (fd < 0) && !spills s.fdTable fd)
    | _ => true
  | .nepollCreate env size =>
    decide (size ≤ 0)
      || if env.rteMalloc 0 then
        s.table.ep.all (fun ep => decide (ep.fd < 0))
      else
        (getFdFrombitmap s.fdTable).1 != -1
  | .ngTcpProcess env m =>
    match ngTcpStreamOf s m with
    | some (_, st) =>
      !cksumOk env m || st.status != .lastAck || !hasFlag m.tcp.tcpFlags rteTcpAckFlag
        || decide (st.fd < 0)
    | none => true
  | _ => true

/--
What a step does to the descriptors.
-/
inductive FdChange (s : Stack) (act : Act) (carries' : Obj → Option Int) (fdTable' : FdTable)
    : Prop where
  | same (hcarries : carries' = s.carries)
    (hused : ∀ e, fdUsed fdTable' e ↔ fdUsed s.fdTable e) (hcond : fdCond s act = true)
  /-- A descriptor is taken for no object. -/
  | leaked {fd : Int} (hcarries : carries' = s.carries) (htaken : FdTaken s.fdTable (fd, fdTable'))
    (hcond : fdCond s act = true ↔ fd = -1)
  | opened {o : Obj} {fd : Int} (hnew : ¬s.known o)
    (hcarries : carries' = Function.update s.carries o (some fd))
    (htaken : FdTaken s.fdTable (fd, fdTable')) (hcond : fdCond s act = true)
  /-- An object without a descriptor gets one. -/
  | accepted {o : Obj} {old fd : Int} (hold : s.carries o = some old) (hneg : old < 0)
    (hcarries : carries' = Function.update s.carries o (some fd))
    (htaken : FdTaken s.fdTable (fd, fdTable')) (hcond : fdCond s act = true)
  | pending {o : Obj} (hnew : ¬s.known o)
    (hcarries : carries' = Function.update s.carries o (some (-1)))
    (hfd : fdTable' = s.fdTable) (hcond : fdCond s act = true)
  | closed {o : Obj} {fd : Int} (ho : s.carries o = some fd)
    (hcarries : carries' = Function.update s.carries o none)
    (hfd : fdTable' = setFdFrombitmap s.fdTable fd)
    (hcond : fdCond s act = true ↔ spills s.fdTable fd = false)
  /-- The descriptor becomes free while the object keeps it. -/
  | released {o : Obj} {fd : Int} (ho : s.carries o = some fd) (hcarries : carries' = s.carries)
    (hfd : fdTable' = setFdFrombitmap s.fdTable fd)
    (hcond : fdCond s act = true ↔ fd < 0 ∧ spills s.fdTable fd = false)
  /-- No descriptor has been there to be given back. -/
  | spilled {fd : Int} (hneg : fd < 0) (hcarries : carries' = s.carries)
    (hfd : fdTable' = setFdFrombitmap s.fdTable fd) (hspills : spills s.fdTable fd = true)
    (hcond : fdCond s act = false)
  /-- The object goes and its descriptor stays taken. -/
  | removed {o : Obj} {fd : Int} (ho : s.carries o = some fd)
    (hcarries : carries' = Function.update s.carries o none) (hfd : fdTable' = s.fdTable)
    (hcond : fdCond s act = true ↔ fd < 0)
  /-- The event poll takes the place of another one that has a descriptor. -/
  | replaced {o : Obj} {old fd : Int} (ho : s.carries o = some old) (hold : 0 ≤ old)
    (hcarries : carries' = Function.update s.carries o (some fd))
    (hused : fd = -1 ∨ ∃ n : Nat, fd = n ∧ ¬fdUsed s.fdTable n)
    (hkept : ∀ e, fdUsed s.fdTable e → fdUsed fdTable' e)
    (hbound : ∀ e, fdUsed fdTable' e → fdUsed s.fdTable e ∨ e < maxFdCount)
    (hcond : fdCond s act = false)

theorem owns_update {s s' : Stack} {o : Obj} {v : Option Int}
    (h : s'.carries = Function.update s.carries o v)
    : s'.owns = Function.update s.owns o (v.bind Int.toNat?) := by
  funext o'
  unfold Stack.owns
  rw [h]
  by_cases heq : o' = o
  . subst heq
    rw [Function.update_self, Function.update_self]
  . rw [Function.update_of_ne heq, Function.update_of_ne heq]

theorem owns_congr {s s' : Stack} (h : s'.carries = s.carries) : s'.owns = s.owns := by
  funext o
  rw [Stack.owns, h, Stack.owns]

theorem owns_eq_none_of_neg {s : Stack} {o : Obj} (h : ∀ fd, s.carries o = some fd → fd < 0)
    : s.owns o = none := by
  cases ho : s.owns o with
  | none => rfl
  | some n =>
    have := h n ((owns_eq_some_iff s o n).mp ho)
    omega

theorem toNat?_neg {fd : Int} (h : fd < 0) : fd.toNat? = none := by
  cases hfd : fd.toNat? with
  | none => rfl
  | some n =>
    rw [toNat?_eq_some_iff] at hfd
    omega

theorem owned_of_take {s s' : Stack} {o : Obj} {fd : Int} (hI : FdInv s)
    (hneg : ∀ old, s.carries o = some old → old < 0)
    (hcarries : s'.carries = Function.update s.carries o (some fd))
    (htaken : FdTaken s.fdTable (fd, s'.fdTable)) : FdInv s' := by
  rw [fdInv_iff_owned] at hI ⊢
  have hnone := owns_eq_none_of_neg hneg
  rw [owns_update hcarries, Option.bind_some]
  generalize hpair : (fd, s'.fdTable) = p at htaken
  cases htaken with
  | full =>
    simp only [Prod.mk.injEq] at hpair
    rw [hpair.1, hpair.2, toNat?_neg (by decide), ← hnone, Function.update_eq_self]
    exact hI
  | @taken n _ hlt hfree hused =>
    simp only [Prod.mk.injEq] at hpair
    rw [hpair.1, hpair.2, (toNat?_eq_some_iff _ n).mpr rfl]
    exact hI.take hnone hfree hused

theorem fdInv_of_update_neg {s s' : Stack} {o : Obj} {v : Option Int} (hI : FdInv s)
    (hneg : ∀ old, s.carries o = some old → old < 0) (hv : ∀ fd, v = some fd → fd < 0)
    (hcarries : s'.carries = Function.update s.carries o v)
    (hused : ∀ e, fdUsed s'.fdTable e ↔ fdUsed s.fdTable e) : FdInv s' := by
  rw [fdInv_iff_owned] at hI ⊢
  have hbind : v.bind Int.toNat? = none := by
    cases v with
    | none => rfl
    | some fd => exact toNat?_neg (hv fd rfl)
  rw [owns_update hcarries, hbind, ← owns_eq_none_of_neg hneg, Function.update_eq_self]
  exact hI.congr hused

/-- The bit of a descriptor that is still carried is cleared in place of a negative one. -/
theorem not_fdInv_of_spills {s s' : Stack} {fd : Int} (hI : FdInv s) (hneg : fd < 0)
    (hspills : spills s.fdTable fd = true) (hfd : s'.fdTable = setFdFrombitmap s.fdTable fd)
    (hcarries : ∀ o n, 0 ≤ n → s.carries o = some n → s'.carries o = some n) : ¬FdInv s' := by
  intro hI'
  rw [spills_iff _ hneg] at hspills
  rcases hspills with ⟨e, hreleased, he⟩
  rcases hI.used_iff.mp he with ⟨o, ho⟩
  have he' := hI'.used_iff.mpr ⟨o, hcarries o e (Int.natCast_nonneg e) ho⟩
  rw [hfd, fdUsed_setFdFrombitmap_iff] at he'
  exact he'.2 hreleased

/-- A step keeps the descriptors in order exactly when it meets the condition. -/
theorem fdInv_change_iff {s s' : Stack} {act : Act} (h : FdChange s act s'.carries s'.fdTable)
    (hbound : ∀ e, fdUsed s.fdTable e → e < maxFdCount) (hI : FdInv s)
    : FdInv s' ↔ fdCond s act = true := by
  have howned := (fdInv_iff_owned s).mp hI
  cases h with
  | same hcarries hused hcond =>
    apply iff_of_true _ hcond
    rw [fdInv_iff_owned, owns_congr hcarries]
    exact howned.congr hused
  -- A descriptor is taken for an object that is not made.
  | @leaked fd hcarries htaken hcond =>
    rw [hcond, fdInv_iff_owned, owns_congr hcarries]
    generalize hpair : (fd, s'.fdTable) = p at htaken
    cases htaken with
    | full =>
      simp only [Prod.mk.injEq] at hpair
      rw [hpair.1, hpair.2]
      exact iff_of_true howned rfl
    | @taken n _ hlt hfree hused =>
      simp only [Prod.mk.injEq] at hpair
      rw [hpair.1, hpair.2]
      apply iff_of_false
      . apply Owned.not_of_unowned ((hused n).mpr (.inr rfl))
        exact howned.ne_of_free hfree
      . omega
  | opened hnew hcarries htaken hcond =>
    apply iff_of_true _ hcond
    apply owned_of_take hI _ hcarries htaken
    simp [carries_eq_none_of_not_known hnew]
  | accepted hold hneg hcarries htaken hcond =>
    apply iff_of_true _ hcond
    apply owned_of_take hI _ hcarries htaken
    intro old' hold'
    rw [hold, Option.some.injEq] at hold'
    rw [← hold']
    exact hneg
  | pending hnew hcarries hfd hcond =>
    apply iff_of_true _ hcond
    apply fdInv_of_update_neg hI _ _ hcarries
    . simp [hfd]
    . simp [carries_eq_none_of_not_known hnew]
    . simp
  | @closed o fd ho hcarries hfd hcond =>
    rw [hcond]
    by_cases hneg : fd < 0
    . cases hspills : spills s.fdTable fd with
      | false =>
        apply iff_of_true _ rfl
        apply fdInv_of_update_neg hI _ _ hcarries
        . rw [hfd]
          exact setFdFrombitmap_neg _ hneg hspills
        . simp [ho, hneg]
        . simp
      | true =>
        apply iff_of_false _ (by simp)
        apply not_fdInv_of_spills hI hneg hspills hfd
        intro o' n hn ho'
        rw [hcarries, Function.update_of_ne, ho']
        rintro rfl
        rw [ho, Option.some.injEq] at ho'
        omega
    . rcases Int.eq_ofNat_of_zero_le (Int.not_lt.mp hneg) with ⟨n, rfl⟩
      apply iff_of_true _ (by simp [spills])
      have hown := (owns_eq_some_iff s o n).mpr ho
      have hlt := hbound n (howned.used_iff.mpr ⟨o, hown⟩)
      rw [fdInv_iff_owned, owns_update hcarries, hfd]
      exact howned.drop hown (fdUsed_setFdFrombitmap _ hlt)
  -- The descriptor is given back while its object still carries it.
  | @released o fd ho hcarries hfd hcond =>
    rw [hcond]
    by_cases hneg : fd < 0
    . cases hspills : spills s.fdTable fd with
      | false =>
        apply iff_of_true _ ⟨hneg, rfl⟩
        rw [fdInv_iff_owned, owns_congr hcarries, hfd]
        exact howned.congr (setFdFrombitmap_neg _ hneg hspills)
      | true =>
        apply iff_of_false _ (by simp)
        apply not_fdInv_of_spills hI hneg hspills hfd
        simp [hcarries]
    . apply iff_of_false _ (fun h => hneg h.1)
      rw [fdInv_iff_owned, owns_congr hcarries, hfd]
      rcases Int.eq_ofNat_of_zero_le (Int.not_lt.mp hneg) with ⟨n, rfl⟩
      have hown := (owns_eq_some_iff s o n).mpr ho
      have hlt := hbound n (howned.used_iff.mpr ⟨o, hown⟩)
      apply Owned.not_of_free hown
      rw [fdUsed_setFdFrombitmap _ hlt]
      simp
  | spilled hneg hcarries hfd hspills hcond =>
    apply iff_of_false _ (by simp [hcond])
    apply not_fdInv_of_spills hI hneg hspills hfd
    simp [hcarries]
  -- The object goes without giving its descriptor back.
  | @removed o fd ho hcarries hfd hcond =>
    rw [hcond]
    by_cases hneg : fd < 0
    . apply iff_of_true _ hneg
      apply fdInv_of_update_neg hI _ _ hcarries
      . simp [hfd]
      . simp [ho, hneg]
      . simp
    . apply iff_of_false _ hneg
      rcases Int.eq_ofNat_of_zero_le (Int.not_lt.mp hneg) with ⟨n, rfl⟩
      have hown := (owns_eq_some_iff s o n).mpr ho
      rw [fdInv_iff_owned, owns_update hcarries, hfd]
      exact howned.not_of_lost hown _ (by simp) (howned.used_iff.mpr ⟨o, hown⟩)
  -- Another descriptor takes the place of the one the object had, whose bit stays set.
  | @replaced o old fd ho hold hcarries hused hkept _ hcond =>
    apply iff_of_false _ (by simp [hcond])
    rcases Int.eq_ofNat_of_zero_le hold with ⟨n, rfl⟩
    have hown := (owns_eq_some_iff s o n).mpr ho
    have hn := howned.used_iff.mpr ⟨o, hown⟩
    rw [fdInv_iff_owned, owns_update hcarries]
    apply howned.not_of_lost hown _ _ (hkept n hn)
    rw [Option.bind_some, ne_eq, toNat?_eq_some_iff]
    rcases hused with hfd | ⟨n', hfd, hfree⟩
    . omega
    . rintro rfl
      rw [Int.natCast_inj] at hfd
      rw [hfd] at hn
      contradiction

theorem fdChange_of_nsocket {env : Env} {s s' : Stack} {type r : Int}
    (h : NsocketDone env s type (r, s')) : FdChange s (.nsocket env type) s'.carries s'.fdTable := by
  have htaken := fdTaken_getFdFrombitmap s.fdTable
  cases h with
  | failed h _ =>
    refine .leaked (carries_congr rfl (fun _ => rfl) rfl) htaken ?_
    simp [fdCond, h]
  | host _ h hfd _ =>
    refine .opened (o := .host s.lhost.next) ?_ ?_ htaken ?_
    . simp [Stack.known]
    . rw [← hfd]
      exact carries_addHost rfl rfl
    . simp [fdCond, h]
  | stream h hfd _ _ _ _ =>
    refine .opened (o := .stream s.table.tcbSet.next) ?_ ?_ htaken ?_
    . simp [Stack.known]
    . exact carries_addStream rfl rfl rfl hfd
    . simp [fdCond, h]

theorem fdChange_of_nclose {env : Env} {s s' : Stack} {fd : Int} (h : NcloseDone env s fd s')
    (hproto : ∀ a st, s.stream? a = some st → st.protocol = ipprotoTcp)
    : FdChange s (.nclose env fd) s'.carries s'.fdTable := by
  cases h with
  | same h hhost =>
    refine .same rfl (fun _ => Iff.rfl) ?_
    unfold fdCond
    dsimp only
    cases hinfo : getHostinfoFromfd s fd with
    | none => rfl
    | some i =>
      cases i with
      | host a host => simp [hhost a host hinfo]
      | stream a st =>
        rcases h a st hinfo (hproto a st (getHostinfoFromfd_stream hinfo).1) with ⟨hstatus, hmalloc⟩
        simp [hstatus, hmalloc]
      | ep ep => rfl
  | host hinfo hproto =>
    have ho := carries_of_getHostinfoFromfd hinfo
    exact .closed ho (carries_removeHost rfl rfl) rfl (by simp [fdCond, hinfo, hproto])
  | fin hinfo _ hstatus hmalloc _ =>
    have ho := carries_of_getHostinfoFromfd hinfo
    have hst := (getHostinfoFromfd_stream hinfo).1
    refine .released ho ?_ rfl ?_
    . exact carries_modifyStream hst rfl
    . simp [fdCond, hinfo, hstatus, hmalloc]
  | listen hinfo hstatus =>
    have ho := carries_of_getHostinfoFromfd hinfo
    refine .removed ho ?_ rfl ?_
    . exact carries_removeStream rfl rfl rfl
    . simp [fdCond, hinfo, hstatus]

theorem fdChange_of_nepollCreate {env : Env} {s s' : Stack} {size r : Int}
    (h : NepollCreated env s size (r, s')) : FdChange s (.nepollCreate env size) s'.carries s'.fdTable := by
  have htaken := fdTaken_getFdFrombitmap s.fdTable
  cases h with
  | refused hsize => exact .same rfl (fun _ => Iff.rfl) (by simp [fdCond, hsize])
  | noMemory hsize hmalloc =>
    by_cases hfull : (getFdFrombitmap s.fdTable).1 = -1
    . rcases spills_of_full hfull with ⟨hsame, hspills⟩
      refine .spilled (by decide) (carries_congr rfl (fun _ => rfl) rfl) ?_ hspills ?_
      . dsimp only
        rw [hsame, hfull]
      . simp [fdCond, hmalloc, hfull, hsize]
    . refine .same (carries_congr rfl (fun _ => rfl) rfl) ?_ (by simp [fdCond, hmalloc, hfull])
      intro e
      dsimp only
      rw [setFdFrombitmap_getFdFrombitmap hfull]
  | installed hsize hmalloc =>
    -- A second event poll takes the place of the first one, whose descriptor is never given back.
    cases hep : s.table.ep with
    | none =>
      refine .opened (o := .poll) ?_ (carries_setPoll rfl rfl) htaken ?_
      . simp [Stack.known, hep]
      . simp [fdCond, hep, hmalloc]
    | some old =>
      have ho : s.carries .poll = some old.fd := by simp [Stack.carries, hep]
      by_cases hneg : old.fd < 0
      . exact .accepted ho hneg (carries_setPoll rfl rfl) htaken (by simp [fdCond, hep, hneg, hmalloc])
      . refine .replaced ho (Int.not_lt.mp hneg) (carries_setPoll rfl rfl) (free_of_taken htaken)
          (fun _ => used_of_taken htaken) (fun _ => bound_of_taken htaken) ?_
        simp [fdCond, hep, hneg, hmalloc, Int.not_le.mpr hsize]

theorem fdChange_of_segment {env : Env} {s s' : Stack} {m : Mbuf}
    (h : SegmentProcessed env s m s') : FdChange s (.ngTcpProcess env m) s'.carries s'.fdTable := by
  cases h with
  | ignored h =>
    refine .same rfl (fun _ => Iff.rfl) ?_
    unfold fdCond
    dsimp only
    split
    . next a st hfind =>
      cases hcksum : cksumOk env m with
      | false => rfl
      | true =>
        have := h hcksum a st hfind
        by_cases hstatus : st.status = .lastAck
        . rw [hstatus] at this
          simp only [ignores, Bool.not_eq_true'] at this
          simp [this]
        . simp [hstatus]
    . rfl
  | halfOpen _ hfind hstatus _ _ hcreate =>
    refine .pending (o := .stream s.table.tcbSet.next) ?_ ?_ rfl (by simp [fdCond, hfind, hstatus])
    . simp [Stack.known]
    . exact carries_addStream rfl rfl rfl hcreate.fd
  | synAck _ hfind hstatus _ _ hcreate _ =>
    refine .pending (o := .stream s.table.tcbSet.next) ?_ ?_ rfl (by simp [fdCond, hfind, hstatus])
    . simp [Stack.known]
    . exact carries_addStream rfl rfl rfl hcreate.fd
  | handshake _ hfind hstatus _ _ hep hsig =>
    have hmoved := EpMoved.signalled hsig
    rw [← hep] at hmoved
    refine .same ?_ (fun _ => Iff.rfl) (by simp [fdCond, hfind, hstatus])
    exact carries_afterSegment (stream?_of_ngTcpStreamOf hfind) rfl hmoved
  | segment _ hfind hstatus h =>
    refine .same ?_ (fun _ => Iff.rfl) (by simp [fdCond, hfind, hstatus])
    exact carries_afterSegment (stream?_of_ngTcpStreamOf hfind) h.fd_eq h.epMoved
  -- The last ACK frees the stream and leaves its descriptor as it is.
  | @lastAck a st _ hcksum hfind hstatus hack =>
    have hst := stream?_of_ngTcpStreamOf hfind
    have hheld : s.carries (.stream a) = some st.fd := by
      simp [Stack.carries, hst]
    refine .removed hheld ?_ rfl ?_
    . exact carries_removeStream rfl rfl rfl
    . simp [fdCond, hfind, hcksum, hstatus, hack]

theorem fdChange_of_stepped {s s' : Stack} {act : Act} {out : Out} (h : Stepped s act out s')
    (hproto : ∀ a st, s.stream? a = some st → st.protocol = ipprotoTcp) : FdChange s act s'.carries s'.fdTable := by
  cases h with
  | nsocket h => exact fdChange_of_nsocket h
  | nbind h =>
    cases h with
    | same => exact .same rfl (fun _ => Iff.rfl) rfl
    | host h =>
      rcases h.rest with ⟨_, _, hs'⟩
      exact .same (carries_of_sameHosts h) (fun _ => by rw [hs']) rfl
    | stream hinfo =>
      have hst := (getHostinfoFromfd_stream hinfo).1
      exact .same (carries_modifyStream hst rfl) (fun _ => Iff.rfl) rfl
  | nlisten h =>
    rcases h with rfl | ⟨b, st, hinfo, rfl⟩
    . exact .same rfl (fun _ => Iff.rfl) rfl
    . have hst := (getHostinfoFromfd_stream hinfo).1
      exact .same (carries_modifyStream hst rfl) (fun _ => Iff.rfl) rfl
  | naccept h =>
    cases h with
    | failed => exact .same rfl (fun _ => Iff.rfl) rfl
    | @accepted l a listener apt hinfo hfind =>
      rcases getAcceptTcb_some hfind with ⟨hst, _, hfd⟩
      refine .accepted (o := .stream a) ?_ (by decide : (-1 : Int) < 0) ?_
        (fdTaken_getFdFrombitmap s.fdTable) rfl
      . simp [Stack.carries, hst, hfd]
      . exact carries_acceptStream (f := fun apt =>
          { apt with fd := (getFdFrombitmap s.fdTable).1 }) rfl rfl rfl hst rfl
  | nsend h =>
    cases h with
    | same => exact .same rfl (fun _ => Iff.rfl) rfl
    | sent hinfo _ _ _ =>
      have hst := (getHostinfoFromfd_stream hinfo).1
      exact .same (carries_modifyStream hst rfl) (fun _ => Iff.rfl) rfl
  | nrecv h =>
    rcases nrecv_cases h with ⟨rfl, _⟩ | ⟨b, st, rcvbuf, f, rest, hinfo, _, _, rfl⟩
    . exact .same rfl (fun _ => Iff.rfl) rfl
    . have hst := (getHostinfoFromfd_stream hinfo).1
      exact .same (carries_modifyStream hst rfl) (fun _ => Iff.rfl) rfl
  | nclose h => exact fdChange_of_nclose h hproto
  | nepollCreate h => exact fdChange_of_nepollCreate h
  | nepollCtl h =>
    cases h with
    | same _ _ => exact .same rfl (fun _ => Iff.rfl) rfl
    | add hinfo _ _ _ _ =>
      exact .same (carries_setEp (getHostinfoFromfd_ep hinfo).1 rfl) (fun _ => Iff.rfl) rfl
    | del hinfo _ _ =>
      exact .same (carries_setEp (getHostinfoFromfd_ep hinfo).1 rfl) (fun _ => Iff.rfl) rfl
    | mod hinfo _ _ =>
      exact .same (carries_setEp (getHostinfoFromfd_ep hinfo).1 rfl) (fun _ => Iff.rfl) rfl
  | nepollWait h =>
    rcases h with ⟨rfl, _⟩ | ⟨ep, ep', hinfo, hpop, _, rfl⟩
    . exact .same rfl (fun _ => Iff.rfl) rfl
    . exact .same (carries_setEp (getHostinfoFromfd_ep hinfo).1 hpop.fd_eq) (fun _ => Iff.rfl) rfl
  | epollEventCallback hep hsig =>
    exact .same (carries_setEp hep hsig.fd_eq) (fun _ => Iff.rfl) rfl
  | ngArpEntryInsert => exact .same rfl (fun _ => Iff.rfl) rfl
  | @ngTcpProcess env m _ t h =>
    have hcarries : (t.rtePktmbufFree m).carries = t.carries :=
      carries_congr rfl (fun _ => rfl) rfl
    rw [hcarries]
    exact fdChange_of_segment h
  | ngTcpOut h =>
    have hs' := h.rest
    refine .same ?_ (fun _ => by rw [hs']) rfl
    apply carries_congr
    . rw [hs']
    . intro a
      rcases h.stream? a with ⟨hst, hst', _⟩ | ⟨st, st', hst, hst', hout⟩
      . rw [hst, hst']
      . rw [hst, hst']
        rw [Option.map_some, Option.map_some, hout.fd_eq]
    . rw [hs']
  | nsendto h | nrecvfrom h | udpProcess h | udpOut h =>
    rcases h.rest with ⟨_, _, hs'⟩
    exact .same (carries_of_sameHosts h) (fun _ => by rw [hs']) rfl

theorem fdUsed_lt_of_run {tr : List Step} {t : Stack} (h : Run .init tr t)
    : ∀ e, fdUsed t.fdTable e → e < maxFdCount := by
  apply Machine.Run.history (P := fun _ t => ∀ e, fdUsed t.fdTable e → e < maxFdCount) h
  . intro e he
    exact absurd he (not_fdUsed_init e)
  . intro tr t act o u hrun hI hstep e he
    cases fdChange_of_stepped (stepped_of_step hstep) (protocol_of_run hrun) with
    | same _ hused _ => exact hI e ((hused e).mp he)
    | leaked _ htaken _ => exact (bound_of_taken htaken he).elim (hI e) id
    | opened _ _ htaken _ => exact (bound_of_taken htaken he).elim (hI e) id
    | accepted _ _ _ htaken _ => exact (bound_of_taken htaken he).elim (hI e) id
    | pending _ _ hfd _ =>
      rw [hfd] at he
      exact hI e he
    | closed _ _ hfd _ | released _ _ hfd _ | spilled _ _ hfd _ _ =>
      rw [hfd] at he
      exact hI e (fdUsed_of_setFdFrombitmap he)
    | removed _ _ hfd _ =>
      rw [hfd] at he
      exact hI e he
    | replaced _ _ _ _ _ hbound _ => exact (hbound e he).elim (hI e) id

/--
The step gives the object the descriptor it returns.
-/
structure HandedOut (e : Step) (o : Obj) : Prop where
  nonneg : 0 ≤ e.out.ret
  before : e.pre.carries o ≠ some e.out.ret
  after : e.post.carries o = some e.out.ret

/--
The descriptors are in order, and one that was handed out for an object denotes it as long as it is
there.
-/
def FdHistory (tr : List Step) (s : Stack) : Prop :=
  FdInv s ∧ ∀ e ∈ tr, ∀ o, HandedOut e o → (s.carries o).isSome
    → (getHostinfoFromfd s e.out.ret).map Hostinfo.obj = some o

/-- As long as the descriptors are in order, an object keeps the descriptor it carries. -/
theorem carries_kept {s s' : Stack} {act : Act} (h : FdChange s act s'.carries s'.fdTable)
    (hcond : fdCond s act = true) {o : Obj} {fd : Int} (hfd : 0 ≤ fd) (ho : s.carries o = some fd)
    (hlive : (s'.carries o).isSome) : s'.carries o = some fd := by
  have hnew {o' : Obj} (hnew : ¬s.known o') : o ≠ o' := by
    rintro rfl
    rw [carries_eq_none_of_not_known hnew] at ho
    contradiction
  cases h with
  | same hcarries _ _ => rw [hcarries, ho]
  | leaked hcarries _ _ => rw [hcarries, ho]
  | released _ hcarries _ _ => rw [hcarries, ho]
  | spilled _ hcarries _ _ _ => rw [hcarries, ho]
  | opened h hcarries _ _ => rw [hcarries, Function.update_of_ne (hnew h), ho]
  | pending h hcarries _ _ => rw [hcarries, Function.update_of_ne (hnew h), ho]
  | accepted hold hneg hcarries _ _ =>
    rw [hcarries, Function.update_of_ne, ho]
    rintro rfl
    rw [hold, Option.some.injEq] at ho
    omega
  | closed _ hcarries _ _ =>
    rw [hcarries, Function.update_of_ne, ho]
    rintro rfl
    simp [hcarries] at hlive
  | removed _ hcarries _ _ =>
    rw [hcarries, Function.update_of_ne, ho]
    rintro rfl
    simp [hcarries] at hlive
  -- The condition excludes this step.
  | replaced _ _ _ _ _ _ hfalse =>
    rw [hfalse] at hcond
    contradiction

/-- An object that is gone does not come back. -/
theorem carries_gone {s s' : Stack} {act : Act} (h : FdChange s act s'.carries s'.fdTable) {o : Obj}
    (hknown : s.known o) (ho : s.carries o = none) : s'.carries o = none := by
  have hne {o' : Obj} {fd : Int} (ho' : s.carries o' = some fd) : o ≠ o' := by
    rintro rfl
    rw [ho] at ho'
    contradiction
  cases h with
  | same hcarries _ _ => rw [hcarries, ho]
  | leaked hcarries _ _ => rw [hcarries, ho]
  | released _ hcarries _ _ => rw [hcarries, ho]
  | spilled _ hcarries _ _ _ => rw [hcarries, ho]
  | opened hnew hcarries _ _ =>
    rw [hcarries, Function.update_of_ne, ho]
    rintro rfl
    contradiction
  | pending hnew hcarries _ _ =>
    rw [hcarries, Function.update_of_ne, ho]
    rintro rfl
    contradiction
  | accepted hold _ hcarries _ _ => rw [hcarries, Function.update_of_ne (hne hold), ho]
  | closed hold hcarries _ _ => rw [hcarries, Function.update_of_ne (hne hold), ho]
  | removed hold hcarries _ _ => rw [hcarries, Function.update_of_ne (hne hold), ho]
  | replaced hold _ hcarries _ _ _ _ => rw [hcarries, Function.update_of_ne (hne hold), ho]

theorem fdHistory_step_iff {tr : List Step} {t u : Stack} {act : Act} {out : Out}
    (hrun : Run .init tr t) (hP : FdHistory tr t) (hstep : machine.step t act = .ok (u, out))
    : FdHistory (tr ++ [⟨t, act, out, u⟩]) u ↔ fdCond t act = true := by
  have hchange := fdChange_of_stepped (stepped_of_step hstep) (protocol_of_run hrun)
  have hiff := fdInv_change_iff hchange (fdUsed_lt_of_run hrun) hP.1
  constructor
  . intro h
    exact hiff.mp h.1
  . intro hcond
    have hinv := hiff.mpr hcond
    refine ⟨hinv, ?_⟩
    intro e he o hout hlive
    apply hinv.lookup hout.nonneg
    rw [List.mem_append, List.mem_singleton] at he
    rcases he with he | rfl
    . have hknown : t.known o := by
        rcases List.append_of_mem he with ⟨tr1, tr2, rfl⟩
        apply (hrun.at_edge).2.2.rel (R := fun s s' => s.known o → s'.known o)
        . exact fun _ => id
        . exact fun h1 h2 => h2 ∘ h1
        . exact fun hs => known_of_stepped (stepped_of_step hs)
        . refine not_imp_comm.mp carries_eq_none_of_not_known ?_
          rw [hout.after]
          simp
      -- An object that is there now has been there before the step, as none comes back.
      have hlive' : (t.carries o).isSome := by
        rw [Option.isSome_iff_ne_none]
        intro hnone
        rw [carries_gone hchange hknown hnone] at hlive
        contradiction
      have hlookup := hP.2 e he o hout hlive'
      rw [Option.map_eq_some_iff] at hlookup
      rcases hlookup with ⟨i, hi, rfl⟩
      exact carries_kept hchange hcond hout.nonneg (carries_of_getHostinfoFromfd hi) hlive
    . exact hout.after

/--
The descriptors stay in order along a run exactly as long as every step meets the condition.
-/
theorem fdHistory_run_iff {tr : List Step} {t : Stack} (h : Run .init tr t)
    : (∀ tr' t', tr' <+: tr → Run .init tr' t' → FdHistory tr' t')
        ↔ ∀ e ∈ tr, fdCond e.pre e.act = true := by
  apply Machine.Run.forall_prefix_iff_guard (C := fun s act => fdCond s act = true) h
  . refine ⟨?_, by simp⟩
    rw [fdInv_iff_owned]
    constructor
    . intro o o' fd ho _
      rw [owns_eq_some_iff] at ho
      cases o <;> contradiction
    . intro fd
      apply iff_of_false (not_fdUsed_init fd)
      rintro ⟨o, ho⟩
      rw [owns_eq_some_iff] at ho
      cases o <;> contradiction
  . intro tr t act out u hrun hP hstep
    exact fdHistory_step_iff hrun hP hstep

/-- A server comes up, a client connects and is accepted. -/
theorem fdHistory_run_served
    : ∃ tr t, Run .init tr t
        ∧ tr.map Edge.act = serverUp ++ connect 5 ++ [.naccept 3]
        ∧ ∀ tr' t', tr' <+: tr → Run .init tr' t' → FdHistory tr' t' := by
  have hcheck : machine.check .init (serverUp ++ connect 5 ++ [.naccept 3])
      (fun tr _ => tr.all (fun e => fdCond e.pre e.act)) = true := by
    decide +kernel
  rcases Machine.exists_run_of_check hcheck with ⟨tr, t, hrun, hacts, hcond⟩
  rw [List.all_eq_true] at hcond
  exact ⟨tr, t, hrun, hacts, (fdHistory_run_iff hrun).mpr hcond⟩

/-- A connection that is closed keeps its descriptor, and the next socket gets the same one. -/
theorem not_fdHistory_of_closed : ¬∀ tr t, Run .init tr t → FdHistory tr t := by
  have hcheck : machine.check .init
      (serverUp ++ connect 5 ++ [.naccept 3, .nclose .granting 5, .nsocket .granting sockDgram])
      (fun _ t => t.carries (.stream 1) == some 5 && t.carries (.host 0) == some 5) = true := by
    decide +kernel
  rcases Machine.exists_run_of_check hcheck with ⟨tr, t, hrun, _, htest⟩
  intro hall
  simp only [Bool.and_eq_true, beq_iff_eq] at htest
  have := (hall tr t hrun).1.unique (by decide) htest.1 htest.2
  contradiction

end NgStack
