import DpdkLearning.Stack.Lemmas.FdTable
import DpdkLearning.Stack.Lemmas.System

/-!
This module contains what the calls that acquire several things leave behind when one of them cannot be
had: `nsocket`, `nepoll_create` and `ng_tcp_handle_listen`.
-/

open Lib

namespace NgStack

structure SameTables (s s' : Stack) : Prop where
  fdTable : s'.fdTable = s.fdTable
  lhost : s'.lhost = s.lhost
  tcbSet : s'.table.tcbSet = s.table.tcbSet
  ep : s'.table.ep = s.table.ep

/--
A call that reports an error has left the tables as they were.
-/
def FailsClean (s : Stack) (res : Int × Stack) : Prop :=
  res.1 < 0 → SameTables s res.2

/--
`get_fd_frombitmap` has a descriptor to give.
-/
def Stack.fdLeft (s : Stack) : Bool :=
  (getFdFrombitmap s.fdTable).1 != -1

/--
As long as there are descriptors, the memory and the rings for the socket are there too; once there are
none, something else stops the call as well.
-/
def nsocketClean (env : Env) (s : Stack) (type : Int) : Bool :=
  if s.fdLeft then
    (socketRings type).isNone || nsocketCreates env s type
  else
    !nsocketCreates env s type

/--
There is a descriptor for the event poll, or the call does not get to the point where it needs one. A missing
`pthread` object makes it call `free` on memory that is not from `malloc`, and it does not come back.
-/
def nepollCreateClean (env : Env) (s : Stack) (size : Int) : Bool :=
  decide (size ≤ 0) || s.fdLeft || (env.rteMalloc 0 && !(List.range 4).all env.pthreadInit)

/--
The memory for the SYN-ACK is there whenever that for the stream is.
-/
def ngTcpHandleListenClean (env : Env) (stream : NgTcpStream) (tcphdr : RteTcpHdr) : Bool :=
  !(hasFlag tcphdr.tcpFlags rteTcpSynFlag && stream.status == .listen && env.rteMalloc 0)
    || env.rteMalloc 1

theorem fdLeft_cases (s : Stack)
    : s.fdLeft = false ∧ getFdFrombitmap s.fdTable = (-1, s.fdTable)
      ∨ s.fdLeft = true ∧ 0 ≤ (getFdFrombitmap s.fdTable).1
        ∧ (getFdFrombitmap s.fdTable).2 ≠ s.fdTable := by
  have htaken := getFdFrombitmap_cases s.fdTable
  unfold Stack.fdLeft
  generalize getFdFrombitmap s.fdTable = taken at htaken
  cases htaken with
  | full => exact .inl ⟨rfl, rfl⟩
  | @taken fd fdTable' hlt hfree hused =>
    right
    refine ⟨?_, ?_, ?_⟩
    . rw [bne_iff_ne]
      omega
    . omega
    . rintro rfl
      apply hfree
      rw [hused]
      right
      rfl

theorem add_ne {α : Type} (l : ObjList α) (x : α) : l.add x ≠ l := by
  intro h
  have hself := l.get?_add_self x
  rw [h, l.get?_next] at hself
  contradiction

theorem failsClean_iff_of_neg {s s' : Stack} {r : Int} (h : r < 0)
    : FailsClean s (r, s') ↔ SameTables s s' := by
  unfold FailsClean
  simp [h]

theorem failsClean_of_nonneg {s s' : Stack} {r : Int} (h : 0 ≤ r) : FailsClean s (r, s') := by
  intro hneg
  dsimp at hneg
  omega

theorem nsocket_failsClean_iff (env : Env) (s : Stack) (type : Int)
    : FailsClean s (nsocket env s type) ↔ nsocketClean env s type = true := by
  have hdone := nsocket_cases env s type
  generalize nsocket env s type = res at hdone
  unfold nsocketClean
  rcases fdLeft_cases s with ⟨hleft, hfd⟩ | ⟨hleft, hpos, hchanged⟩
  -- Without a descriptor the call reports a failure even where it has created a socket.
  . rw [hleft, if_neg Bool.false_ne_true]
    have hneg : (getFdFrombitmap s.fdTable).1 < 0 := by
      rw [hfd]
      omega
    cases hdone with
    | failed h hret =>
      rw [hfd, ite_self] at hret
      rw [failsClean_iff_of_neg (by omega), h]
      simp only [Bool.not_false, iff_true]
      constructor <;> simp [hfd]
    | host _ h =>
      rw [failsClean_iff_of_neg hneg, h]
      simp only [Bool.not_true, Bool.false_eq_true, iff_false]
      intro hsame
      apply add_ne s.lhost
      apply hsame.lhost
    | stream h =>
      rw [failsClean_iff_of_neg hneg, h]
      simp only [Bool.not_true, Bool.false_eq_true, iff_false]
      intro hsame
      apply add_ne s.table.tcbSet
      apply hsame.tcbSet
  -- The bit of a descriptor is not cleared again when a later step fails.
  . rw [hleft, if_pos rfl]
    cases hdone with
    | failed h hret =>
      rw [h, Bool.or_false]
      cases hrings : socketRings type with
      | none =>
        rw [hrings, Option.isSome_none, if_neg Bool.false_ne_true] at hret
        simp only [Option.isNone_none, iff_true]
        apply failsClean_of_nonneg
        omega
      | some rings =>
        rw [hrings, Option.isSome_some, if_pos rfl] at hret
        rw [failsClean_iff_of_neg (by omega)]
        simp only [Option.isNone_some, Bool.false_eq_true, iff_false]
        intro hsame
        exact hchanged hsame.fdTable
    | host _ h | stream h =>
      simp only [h, Bool.or_true, iff_true]
      apply failsClean_of_nonneg hpos

theorem nepollCreate_returns_iff (env : Env) (s : Stack) (size : Int)
    : (∃ res, nepollCreate env s size = .ok res)
        ↔ size ≤ 0 ∨ env.rteMalloc 0 = false ∨ (List.range 4).all env.pthreadInit = true := by
  have hall : (List.range 4).all env.pthreadInit
      = (env.pthreadInit 0 && env.pthreadInit 1 && env.pthreadInit 2 && env.pthreadInit 3) := by
    simp [List.range, List.range.loop, Bool.and_assoc]
  rw [hall]
  unfold nepollCreate
  split
  . next hsize => simp [hsize]
  . next hsize =>
    dsimp only
    split
    . next hmalloc => simp_all
    . next hmalloc =>
      split
      . next hinit => simp [hinit]
      . next hinit => simp [hsize, hinit, show env.rteMalloc 0 = true by simpa using hmalloc]

/-- A call that finds no descriptor and no memory clears the bit of another descriptor. -/
theorem not_sameTables_of_full {s : Stack} (h : s.fdLeft = false)
    : ¬SameTables s { s with
        fdTable := setFdFrombitmap (getFdFrombitmap s.fdTable).2 (getFdFrombitmap s.fdTable).1 } := by
  have hfull : (getFdFrombitmap s.fdTable).1 = -1 := by simpa [Stack.fdLeft] using h
  rcases spills_of_full hfull with ⟨hsame, hspills⟩
  rw [spills_iff _ (by decide)] at hspills
  rcases hspills with ⟨e, hreleased, he⟩
  intro htables
  have hcleared := fdUsed_setFdFrombitmap_iff s.fdTable (-1) e
  have htable := htables.fdTable
  dsimp only at htable
  rw [hsame, hfull] at htable
  rw [htable, iff_self_and] at hcleared
  exact hcleared he hreleased

theorem nepollCreate_failsClean_iff (env : Env) (s : Stack) (size : Int)
    : (∀ stale res, nepollCreate { env with staleEventpoll := stale } s size = .ok res → FailsClean s res)
        ↔ nepollCreateClean env s size = true := by
  -- Memory whose `rdnum` is not that of the event poll in use.
  let other : Eventpoll :=
    { env.staleEventpoll with rdnum := (s.table.ep.map Eventpoll.rdnum).getD 0 + 1 }
  have hother : ∀ ep : Eventpoll, ep.rdnum = other.rdnum → some ep ≠ s.table.ep := by
    intro ep hrdnum heq
    simp only [other, ← heq, Option.map_some, Option.getD_some] at hrdnum
    omega
  unfold nepollCreateClean
  simp only [Bool.or_eq_true, Bool.and_eq_true, decide_eq_true_eq, Bool.not_eq_true']
  constructor
  . intro hclean
    specialize hclean other
    by_cases hsize : size ≤ 0
    . exact .inl (.inl hsize)
    rcases fdLeft_cases s with ⟨hnone, hfd⟩ | ⟨hleft, _⟩
    . right
      by_contra hreturns
      -- Both ways in which the call comes back leave something behind.
      have hres := (nepollCreate_returns_iff { env with staleEventpoll := other } s size).mpr (by
        simpa [hsize, imp_iff_not_or] using hreturns)
      rcases hres with ⟨res, hcall⟩
      specialize hclean res hcall
      cases nepollCreate_cases hcall with
      | refused hle => contradiction
      | noMemory _ _ =>
        rw [failsClean_iff_of_neg (by decide)] at hclean
        exact not_sameTables_of_full hnone hclean
      | installed _ _ =>
        rw [failsClean_iff_of_neg (by rw [hfd]; omega)] at hclean
        exact absurd hclean.ep (hother _ rfl)
    . exact .inl (.inr hleft)
  . intro hcond stale res hcall
    cases nepollCreate_cases hcall with
    | refused =>
      intro _
      constructor <;> rfl
    | noMemory hsize hmalloc =>
      rcases hcond with (hcond | hleft) | ⟨hcond, _⟩
      . omega
      . intro _
        refine ⟨?_, rfl, rfl, rfl⟩
        apply setFdFrombitmap_getFdFrombitmap
        simpa [Stack.fdLeft] using hleft
      . simp [hcond] at hmalloc
    | installed hsize hmalloc =>
      rcases hcond with (hcond | hleft) | ⟨_, hinit⟩
      . omega
      . rcases fdLeft_cases s with ⟨hnone, _⟩ | ⟨_, hpos, _⟩
        . simp [hleft] at hnone
        . apply failsClean_of_nonneg hpos
      . have hreturns := (nepollCreate_returns_iff _ s size).mp ⟨_, hcall⟩
        rcases hreturns with hle | hnone | hall
        . omega
        . exact absurd hmalloc (by simpa using hnone)
        . exact absurd hall (by simpa using hinit)

theorem ngTcpHandleListen_failsClean_iff (env : Env) (s : Stack) (stream : NgTcpStream)
    (tcphdr : RteTcpHdr) (iphdr : RteIpv4Hdr)
    : (∀ res, ngTcpHandleListen env s stream tcphdr iphdr = .ok res → FailsClean s res)
        ↔ ngTcpHandleListenClean env stream tcphdr = true := by
  unfold ngTcpHandleListen ngTcpHandleListenClean
  split
  . next hsyn =>
    split
    . next hstatus =>
      simp only [hsyn, hstatus, beq_self_eq_true, Bool.and_self, Bool.true_and, Bool.or_eq_true,
        Bool.not_eq_true']
      unfold ngTcpStreamCreate
      split
      . next hcreate =>
        split at hcreate
        . next hmalloc => simp at hmalloc; simp [hmalloc]
        . simp at hcreate
      . next syn names hcreate =>
        split at hcreate
        . simp at hcreate
        . next hmalloc =>
          split
          -- The stream is in the table already when the memory for the SYN-ACK is refused.
          . next hmalloc1 =>
            have hfalse : ¬(env.rteMalloc 0 = false ∨ env.rteMalloc 1 = true) := by
              simp at hmalloc hmalloc1
              simp [hmalloc, hmalloc1]
            simp only [hfalse, iff_false]
            intro hclean
            specialize hclean _ rfl
            rw [failsClean_iff_of_neg (by omega)] at hclean
            apply add_ne s.table.tcbSet
            apply hclean.tcbSet
          . next hmalloc1 =>
            have htrue : env.rteMalloc 0 = false ∨ env.rteMalloc 1 = true := by
              right
              simpa using hmalloc1
            simp only [htrue, iff_true]
            intro res hres hneg
            split at hres
            . contradiction
            . cases hres
              contradiction
    . next hstatus =>
      have hne : (stream.status == .listen) = false := by simpa using hstatus
      simp only [hne, Bool.and_false, Bool.false_and, Bool.not_false, Bool.true_or, iff_true]
      rintro _ ⟨⟩ hneg
      contradiction
  . next hsyn =>
    simp only [hsyn, Bool.false_and, Bool.not_false, Bool.true_or, iff_true]
    rintro _ ⟨⟩ hneg
    contradiction

/-- When the calls that fail leave the tables as they were, for memory with any contents. -/
theorem failedCalls_clean_iff (env : Env) (s : Stack)
    : (∀ type, FailsClean s (nsocket env s type) ↔ nsocketClean env s type = true)
      ∧ (∀ size,
          (∀ stale res, nepollCreate { env with staleEventpoll := stale } s size = .ok res → FailsClean s res)
            ↔ nepollCreateClean env s size = true)
      ∧ ∀ stream tcphdr iphdr,
          (∀ res, ngTcpHandleListen env s stream tcphdr iphdr = .ok res → FailsClean s res)
            ↔ ngTcpHandleListenClean env stream tcphdr = true := by
  refine ⟨?_, ?_, ?_⟩
  . intro type
    apply nsocket_failsClean_iff
  . intro size
    apply nepollCreate_failsClean_iff
  . intro stream tcphdr iphdr
    apply ngTcpHandleListen_failsClean_iff

/-- Without a ring for the socket the descriptor stays taken. -/
theorem not_failedCalls_clean
    : ¬∀ env s tr, Run .init tr s
        → (∀ type, FailsClean s (nsocket env s type))
          ∧ (∀ size res, nepollCreate env s size = .ok res → FailsClean s res)
          ∧ ∀ stream tcphdr iphdr res, ngTcpHandleListen env s stream tcphdr iphdr = .ok res
              → FailsClean s res := by
  intro hall
  have hclean := (hall { Env.granting with rteRingCreate := fun _ => false } .init [] .nil).1 sockStream
  rw [nsocket_failsClean_iff] at hclean
  revert hclean
  decide

end NgStack
