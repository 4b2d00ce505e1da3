import DpdkLearning.Flowtable.Impl
import Mathlib.Data.List.Basic

/-!
This module contains when `set interface loadbalanced` is all or nothing: what it is given, what it is to do
with it, and for which inputs and answers of `flowtable_enable` it does that.
-/

namespace Flowtable

def Token.isKnown : Token → Bool
  | .other => false
  | _ => true

def Token.isTo : Token → Bool
  | .wordTo => true
  | _ => false

def Token.swIfIndex : Token → Option UInt32
  | .interface i => some i.val
  | _ => none

/--
The command reads up to the first token that it does not know.
-/
def given (input : List Token) : List Token :=
  input.takeWhile Token.isKnown

/--
The source is the last interface before the first `to`.
-/
def sourceGiven (input : List Token) : Option UInt32 :=
  (((given input).takeWhile (fun t => !t.isTo)).filterMap Token.swIfIndex).getLast?

/--
The targets are the interfaces after the first `to`.
-/
def targetsGiven (input : List Token) : List UInt32 :=
  ((given input).dropWhile (fun t => !t.isTo)).filterMap Token.swIfIndex

variable {vnet : Vnet} {rt : LoadbalancerRuntime} {input : List Token}

/--
There are a source and a target, and each of them can be enabled. The source comes first.
-/
def Accepted (vnet : Vnet) (input : List Token) : Prop :=
  ∃ source, sourceGiven input = some source ∧ targetsGiven input ≠ [] ∧ vnet.flowtableEnable 0 source = 0
    ∧ ∀ i target, (targetsGiven input)[i]? = some target → vnet.flowtableEnable (i + 1) target = 0

/--
The command sets what it is given, or it leaves everything as it was and says so.
-/
structure AllOrNothing (vnet : Vnet) (rt : LoadbalancerRuntime) (input : List Token)
    (result : Except String Unit × LoadbalancerRuntime) : Prop where
  success : result.1 = .ok () ↔ Accepted vnet input
  applied : result.1 = .ok ()
    → sourceGiven input = some result.2.swIfIndexSource ∧ result.2.swIfTarget = targetsGiven input
  kept : result.1 ≠ .ok ()
    → result.2.swIfIndexSource = rt.swIfIndexSource ∧ result.2.swIfTarget = rt.swIfTarget

/--
The last of the targets cannot be enabled.
-/
def LastFails (vnet : Vnet) (input : List Token) : Prop :=
  ∃ target, (targetsGiven input).getLast? = some target
    ∧ vnet.flowtableEnable (targetsGiven input).length target ≠ 0

section

variable {i : { i : UInt32 // i ≠ ~~~0 }}

theorem given_interface : given (.interface i :: input) = .interface i :: given input := by
  rfl

theorem sourceGiven_interface : sourceGiven (.interface i :: input) = some ((sourceGiven input).getD i) := by
  simp only [sourceGiven, given_interface]
  apply List.getLast?_cons

theorem targetsGiven_interface : targetsGiven (.interface i :: input) = targetsGiven input := by
  rfl

end

theorem parse_swIfIndex (p : Parsed) (input : List Token)
    : (parse p input).swIfIndex = ((given input).filterMap Token.swIfIndex).getLast?.getD p.swIfIndex := by
  induction input generalizing p with
  | nil => rfl
  | cons t input ih =>
    cases t with
    | wordTo => exact ih { p with source := false }
    | interface i =>
      have hlast : ((given (.interface i :: input)).filterMap Token.swIfIndex).getLast?
          = some (((given input).filterMap Token.swIfIndex).getLast?.getD i.val) := by
        rw [given_interface]
        apply List.getLast?_cons
      rw [hlast, parse]
      dsimp only
      split
      . apply ih
      . apply ih
    | other => rfl

theorem parse_behind {p : Parsed} (h : p.source = false)
    : (parse p input).swIfIndexSource = p.swIfIndexSource
      ∧ (parse p input).swIfIndexTargets = p.swIfIndexTargets ++ (given input).filterMap Token.swIfIndex := by
  induction input generalizing p with
  | nil => simp [parse, given]
  | cons t input ih =>
    cases t with
    | wordTo => exact ih rfl
    | interface i =>
      rw [parse]
      dsimp only
      rw [h, if_neg (by simp), given_interface]
      refine ⟨(ih rfl).1, ?_⟩
      rw [(ih rfl).2, List.append_assoc]
      rfl
    | other =>
      refine ⟨rfl, ?_⟩
      exact (List.append_nil _).symm

theorem parse_given {p : Parsed} (h : p.source = true)
    : (parse p input).swIfIndexSource = (sourceGiven input).getD p.swIfIndexSource
      ∧ (parse p input).swIfIndexTargets = p.swIfIndexTargets ++ targetsGiven input := by
  induction input generalizing p with
  | nil => exact ⟨rfl, (List.append_nil _).symm⟩
  | cons t input ih =>
    cases t with
    | wordTo => exact parse_behind (p := { p with source := false }) rfl
    | interface i =>
      rw [parse]
      dsimp only
      rw [h, if_pos rfl, (ih rfl).1, (ih rfl).2, sourceGiven_interface, targetsGiven_interface]
      exact ⟨rfl, rfl⟩
    | other => exact ⟨rfl, (List.append_nil _).symm⟩

theorem enableTargets_eq (i : Nat) (rv : Int) (targets : List UInt32)
    : enableTargets vnet (i + 1) rv targets
        = targets.getLast?.elim rv (vnet.flowtableEnable (i + targets.length)) := by
  induction targets generalizing i rv with
  | nil => rfl
  | cons v targets ih =>
    rw [enableTargets, ih, List.getLast?_cons]
    cases hlast : targets.getLast? with
    | none =>
      rw [List.getLast?_eq_none_iff] at hlast
      rw [hlast]
      rfl
    | some t =>
      rw [List.length_cons, Nat.add_assoc, Nat.add_comm 1]
      rfl

theorem ne_of_mem_interfaces {tokens : List Token} {i : UInt32} (h : i ∈ tokens.filterMap Token.swIfIndex)
    : i ≠ ~~~0 := by
  rw [List.mem_filterMap] at h
  rcases h with ⟨t, _, ht⟩
  cases t with
  | interface j =>
    cases ht
    exact j.property
  | _ => contradiction

theorem swIfIndex_ne_of_targets (h : targetsGiven input ≠ []) : (parse .init input).swIfIndex ≠ ~~~0 := by
  have hsub : (targetsGiven input).Sublist ((given input).filterMap Token.swIfIndex) :=
    (List.dropWhile_sublist _).filterMap _
  rw [parse_swIfIndex]
  cases hlast : ((given input).filterMap Token.swIfIndex).getLast? with
  | none =>
    rw [List.getLast?_eq_none_iff] at hlast
    rw [hlast, List.sublist_nil] at hsub
    contradiction
  | some i => exact ne_of_mem_interfaces (List.mem_of_getLast? hlast)

/-- The command succeeds where there is a target and the last of them can be enabled, and nowhere else. -/
theorem setLbTargetCommandFn_cases (vnet : Vnet) (rt : LoadbalancerRuntime) (input : List Token)
    : (setLbTargetCommandFn vnet rt input
          = (.ok (), { rt with
              swIfIndexSource := (sourceGiven input).getD (~~~0)
              swIfTarget := rt.swIfTarget ++ targetsGiven input })
        ∧ targetsGiven input ≠ [] ∧ ¬LastFails vnet input)
      ∨ ((∃ error, setLbTargetCommandFn vnet rt input = (.error error, rt))
        ∧ (targetsGiven input = [] ∨ LastFails vnet input)) := by
  have hsource : (parse .init input).swIfIndexSource = (sourceGiven input).getD (~~~0) :=
    (parse_given (p := .init) rfl).1
  have htargets : (parse .init input).swIfIndexTargets = targetsGiven input := (parse_given (p := .init) rfl).2
  unfold setLbTargetCommandFn
  dsimp only
  rw [hsource, htargets]
  by_cases hnone : targetsGiven input = []
  . right
    refine ⟨?_, .inl hnone⟩
    rw [hnone]
    split
    . exact ⟨_, rfl⟩
    . exact ⟨_, rfl⟩
  rw [if_neg (swIfIndex_ne_of_targets hnone), if_neg (by simpa using hnone), enableTargets_eq]
  obtain ⟨t, hlast⟩ : ∃ t, (targetsGiven input).getLast? = some t := ⟨_, List.getLast?_eq_some_getLast hnone⟩
  rw [hlast, Nat.zero_add, Option.elim_some]
  -- Only what the last call returned is left in `rv`.
  by_cases hrv : vnet.flowtableEnable (targetsGiven input).length t = 0
  . left
    rw [if_pos hrv]
    refine ⟨rfl, hnone, ?_⟩
    rintro ⟨t', hlast', hfails⟩
    rw [hlast] at hlast'
    cases hlast'
    contradiction
  . right
    refine ⟨?_, .inr ⟨t, hlast, hrv⟩⟩
    rw [if_neg hrv]
    split
    . exact ⟨_, rfl⟩
    . split
      . exact ⟨_, rfl⟩
      . exact ⟨_, rfl⟩

theorem not_accepted_of_last (h : targetsGiven input = [] ∨ LastFails vnet input) : ¬Accepted vnet input := by
  rintro ⟨source, _, hsome, _, hall⟩
  rcases h with hnone | ⟨t, hlast, hfails⟩
  . contradiction
  . have hpos : 0 < (targetsGiven input).length := List.length_pos_of_ne_nil hsome
    rw [List.getLast?_eq_getElem?] at hlast
    have henabled := hall _ t hlast
    rw [Nat.sub_add_cancel hpos] at henabled
    contradiction

/--
The command is all or nothing exactly where no target is given, or the last one cannot be enabled, or nothing
fails and the runtime has no targets yet.
-/
theorem setLbTarget_allOrNothing_iff (vnet : Vnet) (rt : LoadbalancerRuntime) (input : List Token)
    : AllOrNothing vnet rt input (setLbTargetCommandFn vnet rt input)
        ↔ targetsGiven input = [] ∨ LastFails vnet input ∨ (Accepted vnet input ∧ rt.swIfTarget = []) := by
  rcases setLbTargetCommandFn_cases vnet rt input with ⟨hresult, hsome, hlast⟩ | ⟨⟨error, hresult⟩, hnot⟩
  . rw [hresult]
    constructor
    . intro h
      have hvector := (h.applied rfl).2
      exact .inr (.inr ⟨h.success.mp rfl, by simpa using hvector⟩)
    . rintro (hnone | hfails | ⟨haccepted, hempty⟩)
      . contradiction
      . contradiction
      . refine ⟨by simp [haccepted], ?_, by simp⟩
        rcases haccepted with ⟨source, hsource, _⟩
        intro _
        simp [hsource, hempty]
  . rw [hresult]
    constructor
    . intro _
      rw [← or_assoc]
      exact .inl hnot
    . intro _
      exact ⟨by simp [not_accepted_of_last hnot], by simp, fun _ => ⟨rfl, rfl⟩⟩

/-- The source cannot be enabled, but the target can, and the command succeeds. -/
theorem not_setLbTarget_allOrNothing
    : ¬AllOrNothing ⟨-2, -6, fun i _ => if i = 0 then -2 else 0⟩ ⟨0, [], 0⟩
        [.interface ⟨1, by decide⟩, .wordTo, .interface ⟨2, by decide⟩]
        (setLbTargetCommandFn ⟨-2, -6, fun i _ => if i = 0 then -2 else 0⟩ ⟨0, [], 0⟩
          [.interface ⟨1, by decide⟩, .wordTo, .interface ⟨2, by decide⟩]) := by
  intro h
  rcases h.success.mp rfl with ⟨source, _, _, henabled, _⟩
  contradiction

end Flowtable
