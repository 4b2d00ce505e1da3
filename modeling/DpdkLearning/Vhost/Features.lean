import DpdkLearning.Vhost.Lemmas.Backend

/-!
This module contains the negotiation of features: what the backend offers is what it was last told to use.
-/

open Lib

namespace Vhost

/--
The value of a SET_FEATURES message.
-/
def Backend.Act.setFeatures : Backend.Act → Option UInt64
  | .message _ msg => if Request.ofCode msg.request.toNat = .setFeatures then some msg.num else none
  | _ => none

def Backend.Act.getsFeatures : Backend.Act → Bool
  | .message _ msg => decide (Request.ofCode msg.request.toNat = .getFeatures)
  | _ => false

def Supported (features : UInt64) : Prop :=
  features &&& ~~~vhostSupportedFeatures = 0

instance (features : UInt64) : Decidable (Supported features) :=
  inferInstanceAs (Decidable (features &&& ~~~vhostSupportedFeatures = 0))

/--
Every GET_FEATURES is answered with the features that the backend supports, and no others are kept after
a SET_FEATURES.
-/
structure Negotiates (tr : List BackendStep) : Prop where
  replies : ∀ e ∈ tr, e.act.getsFeatures = true
    → ∃ reply, e.out.reply = some reply ∧ reply.num = vhostSupportedFeatures
  kept : ∀ e ∈ tr, e.act.setFeatures ≠ none → Supported e.post.vhostSupportedFeatrues

/--
The value of the last SET_FEATURES.
-/
def lastSet (tr : List BackendStep) : Option UInt64 :=
  (tr.filterMap (fun e => e.act.setFeatures)).getLast?

/--
A SET_FEATURES asks for nothing unsupported, and a GET_FEATURES comes while all that is supported is in
use, because no SET_FEATURES came before it or the last one asked for all of it.
-/
def agreeable (past : List BackendStep) (e : BackendStep) : Bool :=
  e.act.setFeatures.all (fun features => decide (Supported features))
    && (!e.act.getsFeatures || decide ((lastSet past).getD vhostSupportedFeatures = vhostSupportedFeatures))

variable {mem : SharedMem} {b b' : Backend} {tr : List BackendStep} {act : Backend.Act} {out : Out}

/-- The backend keeps what it is told and offers what it keeps. -/
theorem features_of_step (h : backendMachine.step b act = .ok (b', out))
    : b'.vhostSupportedFeatrues = act.setFeatures.getD b.vhostSupportedFeatrues
        ∧ (act.getsFeatures = true
          → ∃ reply, out.reply = some reply ∧ reply.num = b.vhostSupportedFeatrues) := by
  cases backendStepped_of_step h with
  | guest | tx | rx => simp [Backend.Act.setFeatures, Backend.Act.getsFeatures]
  | waited hact _ =>
    rcases hact with ⟨_, rfl⟩ | ⟨_, rfl⟩ <;> simp [Backend.Act.setFeatures, Backend.Act.getsFeatures]
  | @message env msg b' out h =>
    simp only [Backend.Act.setFeatures, Backend.Act.getsFeatures]
    generalize Request.ofCode msg.request.toNat = request at h
    cases h with
    | @getFeatures reply hnum => exact ⟨rfl, fun _ => ⟨reply, rfl, hnum⟩⟩
    | setVring hrequest _ _ => rcases hrequest with rfl | rfl | rfl | rfl <;> simp [Backend.setQueue]
    | _ => simp [Backend.setQueue]

theorem features_of_run (h : BackendRun (.init mem) tr b)
    : b.vhostSupportedFeatrues = (lastSet tr).getD vhostSupportedFeatures := by
  induction h with
  | nil => rfl
  | @snoc tr t u act out _ hstep ih =>
    rw [(features_of_step hstep).1, ih, lastSet, lastSet, List.filterMap_append]
    cases hset : act.setFeatures with
    | none => simp [hset]
    | some features => simp [hset]

theorem negotiates_append_iff {e : BackendStep}
    : Negotiates (tr ++ [e]) ↔ Negotiates tr ∧ Negotiates [e] := by
  constructor
  . rintro ⟨hreplies, hkept⟩
    exact ⟨⟨fun e' he => hreplies e' (by simp [he]), fun e' he => hkept e' (by simp [he])⟩,
      ⟨fun e' he => hreplies e' (List.mem_append_right _ he),
        fun e' he => hkept e' (List.mem_append_right _ he)⟩⟩
  . rintro ⟨hpast, hlast⟩
    constructor
    . intro e' he
      rcases List.mem_append.mp he with he | he
      . exact hpast.replies e' he
      . exact hlast.replies e' he
    . intro e' he
      rcases List.mem_append.mp he with he | he
      . exact hpast.kept e' he
      . exact hlast.kept e' he

theorem negotiates_of_step (hrun : BackendRun (.init mem) tr b)
    (h : backendMachine.step b act = .ok (b', out))
    : Negotiates [⟨b, act, out, b'⟩] ↔ agreeable tr ⟨b, act, out, b'⟩ = true := by
  rcases features_of_step h with ⟨hkept, hreply⟩
  rw [features_of_run hrun] at hkept hreply
  simp only [agreeable, Bool.and_eq_true, Bool.or_eq_true, Bool.not_eq_true', decide_eq_true_eq,
    Option.all_eq_true]
  constructor
  . intro hneg
    constructor
    . intro features hset
      have hsupported := hneg.kept _ (List.mem_singleton.mpr rfl)
      dsimp only at hsupported
      rw [hset] at hsupported hkept
      rw [hkept] at hsupported
      exact hsupported (by simp)
    -- A reply tells the features in use, which have to be all that are supported.
    . cases hgets : act.getsFeatures with
      | false => exact .inl rfl
      | true =>
        right
        rcases hreply hgets with ⟨reply, hout, hnum⟩
        rcases hneg.replies _ (List.mem_singleton.mpr rfl) hgets with ⟨reply', hout', hnum'⟩
        rw [hout] at hout'
        cases hout'
        rw [← hnum, hnum']
  . rintro ⟨hset, hget⟩
    constructor
    . intro e he hgets
      rw [List.mem_singleton] at he
      subst he
      rcases hreply hgets with ⟨reply, hout, hnum⟩
      rcases hget with hget | hget
      . rw [hgets] at hget
        contradiction
      . exact ⟨reply, hout, hnum.trans hget⟩
    . intro e he hsets
      rw [List.mem_singleton] at he
      subst he
      dsimp only at hsets ⊢
      rcases Option.ne_none_iff_exists'.mp hsets with ⟨features, hfeatures⟩
      rw [hkept, hfeatures]
      exact hset features hfeatures

/--
The backend negotiates over a run exactly when all of its messages are agreeable.
-/
theorem negotiates_iff (h : BackendRun (.init mem) tr b)
    : Negotiates tr ↔ ∀ tr1 e tr2, tr = tr1 ++ e :: tr2 → agreeable tr1 e = true := by
  induction h with
  | nil => 
    constructor
    . intro _ tr1 e tr2 htr
      simp at htr
    . intro _
      constructor <;> simp
  | @snoc tr t u act out h hstep ih =>
    rw [forall_split_concat_iff, ← ih, ← negotiates_of_step h hstep]
    exact negotiates_append_iff

/-- A driver that asks for all that is offered, and comes back. -/
theorem negotiates_iff_reconnect
    : ∃ tr b, BackendRun (.init .zero) tr b
        ∧ tr.map (fun e => e.act.setFeatures) = [none, none, some 0x100000182, none]
        ∧ Negotiates tr := by
  have hcheck : backendMachine.check (.init .zero)
      [.send 3 [], .send 1 [], .send 2 [0x82, 0x01, 0, 0, 1, 0, 0, 0], .send 1 []]
      (fun tr _ => tr.map (fun e => e.act.setFeatures) == [none, none, some 0x100000182, none]
        && everywhere agreeable tr) = true := by
    decide +kernel
  rcases Machine.exists_run_of_check hcheck with ⟨tr, b, hrun, _, htest⟩
  rw [Bool.and_eq_true, beq_iff_eq] at htest
  refine ⟨tr, b, hrun, htest.1, (negotiates_iff hrun).mpr ?_⟩
  intro tr1 e tr2 htr
  exact of_everywhere htest.2 htr

/-- A driver that wants `VIRTIO_F_VERSION_1` alone is offered no more when it comes back. -/
theorem not_negotiates : ∃ tr b, BackendRun (.init .zero) tr b ∧ ¬Negotiates tr := by
  have hcheck : backendMachine.check (.init .zero) [.send 2 [0, 0, 0, 0, 1, 0, 0, 0], .send 1 []]
      (fun tr _ => tr.any (fun e => e.act.getsFeatures
        && e.out.reply.all (fun reply => reply.num == 0x100000000))) = true := by
    decide +kernel
  rcases Machine.exists_run_of_check hcheck with ⟨tr, b, hrun, _, htest⟩
  refine ⟨tr, b, hrun, ?_⟩
  intro hneg
  rcases List.any_eq_true.mp htest with ⟨e, he, htest⟩
  rw [Bool.and_eq_true, Option.all_eq_true] at htest
  rcases hneg.replies e he htest.1 with ⟨reply, hreply, hnum⟩
  have hsmall := htest.2 reply hreply
  rw [beq_iff_eq, hnum] at hsmall
  exact absurd hsmall (by decide)

end Vhost
