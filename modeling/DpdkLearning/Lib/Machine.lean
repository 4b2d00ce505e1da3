import Mathlib.Data.List.Induction

/-!
This module contains deterministic machines, their runs and the rules that carry a fact from the
steps of a run to all of its states. A run records every step it took together with the state before
and after it, so that a fact may be about the history of a run as well as about its last state.
-/

namespace Lib

/--
A machine with states `σ`, actions `α` and outputs `ω`. A step that does not come back yields an `ε`.
-/
structure Machine (σ α ω ε : Type) where
  step : σ → α → Except ε (σ × ω)

structure Edge (σ α ω : Type) where
  pre : σ
  act : α
  out : ω
  post : σ

/-- A statement about every place of a list with one more element is one about the places before and one
about the last. -/
theorem forall_split_concat_iff {α : Type} {P : List α → α → Prop} {l : List α} {x : α}
    : (∀ l1 y l2, l ++ [x] = l1 ++ y :: l2 → P l1 y)
        ↔ (∀ l1 y l2, l = l1 ++ y :: l2 → P l1 y) ∧ P l x := by
  constructor
  . intro hall
    constructor
    . intro l1 y l2 hl
      exact hall l1 y (l2 ++ [x]) (by simp [hl])
    . exact hall l x [] rfl
  . rintro ⟨hpast, hlast⟩ l1 y l2 hl
    cases l2 using List.reverseRecOn with
    | nil =>
      rcases List.append_inj' hl rfl with ⟨rfl, hy⟩
      cases hy
      exact hlast
    | append_singleton l2 z =>
      rw [← List.cons_append, ← List.append_assoc] at hl
      exact hpast l1 y l2 (List.append_inj' hl rfl).1

/--
The test holds at every place of a list, given what comes before it.
-/
def everywhere {α : Type} (test : List α → α → Bool) (l : List α) : Bool :=
  (List.range l.length).all (fun i => l[i]?.all (test (l.take i)))

theorem of_everywhere {α : Type} {test : List α → α → Bool} {l l1 l2 : List α} {x : α}
    (h : everywhere test l = true) (hl : l = l1 ++ x :: l2) : test l1 x = true := by
  rw [everywhere, List.all_eq_true] at h
  have := h l1.length (by simp [hl])
  simpa [hl] using this

/--
The call returns, and the test accepts what it returned.
-/
def returns {ε α : Type} (x : Except ε α) (test : α → Bool) : Bool :=
  match x with
  | .error _ => false
  | .ok r => test r

theorem exists_of_returns {ε α : Type} {x : Except ε α} {test : α → Bool} (h : returns x test = true)
    : ∃ r, x = .ok r ∧ test r = true := by
  unfold returns at h
  split at h
  . contradiction
  . next r => exact ⟨r, rfl, h⟩

/--
The call does not come back, for a reason the test accepts.
-/
def fails {ε α : Type} (x : Except ε α) (test : ε → Bool) : Bool :=
  match x with
  | .error e => test e
  | .ok _ => false

theorem exists_of_fails {ε α : Type} {x : Except ε α} {test : ε → Bool} (h : fails x test = true)
    : ∃ e, x = .error e ∧ test e = true := by
  unfold fails at h
  split at h
  . next e => exact ⟨e, rfl, h⟩
  . contradiction

namespace Machine

variable {σ α ω ε : Type} {m : Machine σ α ω ε}

inductive Run (m : Machine σ α ω ε) (s : σ) : List (Edge σ α ω) → σ → Prop where
  | nil : Run m s [] s
  | snoc {tr : List (Edge σ α ω)} {t u : σ} {a : α} {o : ω} (h : Run m s tr t)
      (hstep : m.step t a = .ok (u, o))
      : Run m s (tr ++ [⟨t, a, o, u⟩]) u

/--
Take the given actions one after the other.
-/
def exec (m : Machine σ α ω ε) (s : σ) : List α → Except ε (List (Edge σ α ω) × σ)
  | [] => .ok ([], s)
  | a :: as =>
    match m.step s a with
    | .error e => .error e
    | .ok (t, o) =>
      match exec m t as with
      | .error e => .error e
      | .ok (tr, u) => .ok (⟨s, a, o, t⟩ :: tr, u)

/--
The given actions can be taken one after the other, and the test accepts the run.
-/
def check (m : Machine σ α ω ε) (s : σ) (as : List α) (test : List (Edge σ α ω) → σ → Bool) : Bool :=
  match exec m s as with
  | .error _ => false
  | .ok (tr, t) => test tr t

namespace Run

variable {s t u : σ} {tr tr1 tr2 : List (Edge σ α ω)}

theorem append (h1 : Run m s tr1 t) (h2 : Run m t tr2 u) : Run m s (tr1 ++ tr2) u := by
  induction h2 with
  | nil =>
    rw [List.append_nil]
    exact h1
  | snoc _ hstep ih =>
    rw [← List.append_assoc]
    exact .snoc ih hstep

theorem cons {a : α} {o : ω} (hstep : m.step s a = .ok (t, o)) (h : Run m t tr u)
    : Run m s (⟨s, a, o, t⟩ :: tr) u :=
  append (.snoc .nil hstep) h

theorem split (h : Run m s (tr1 ++ tr2) u) : ∃ t, Run m s tr1 t ∧ Run m t tr2 u := by
  generalize htr : tr1 ++ tr2 = tr at h
  induction h generalizing tr2 with
  | nil =>
    rw [List.append_eq_nil_iff] at htr
    rcases htr with ⟨rfl, rfl⟩
    exact ⟨s, .nil, .nil⟩
  | @snoc tr' t' u' a o h hstep ih =>
    cases tr2 using List.reverseRecOn with
    | nil =>
      rw [List.append_nil] at htr
      subst htr
      exact ⟨u', .snoc h hstep, .nil⟩
    | append_singleton tr2 e =>
      rw [← List.append_assoc] at htr
      have := List.append_inj' htr rfl
      rcases this with ⟨h1, h2⟩
      rcases ih h1 with ⟨v, hv1, hv2⟩
      rw [List.singleton_inj] at h2
      subst h2
      exact ⟨v, hv1, .snoc hv2 hstep⟩

theorem nil_inv (h : Run m s [] t) : t = s := by
  generalize htr : [] = tr at h
  cases h with
  | nil => rfl
  | snoc _ _ => simp at htr

theorem cons_inv {e : Edge σ α ω} (h : Run m s (e :: tr) u)
    : e.pre = s ∧ m.step s e.act = .ok (e.post, e.out) ∧ Run m e.post tr u := by
  rw [← List.singleton_append] at h
  rcases split h with ⟨t, h1, h2⟩
  generalize htr : [e] = tr' at h1
  cases h1 with
  | nil => simp at htr
  | snoc h1 hstep =>
    rw [eq_comm, List.append_eq_singleton_iff] at htr
    rcases htr with ⟨rfl, htr⟩ | ⟨_, htr⟩
    . rw [List.singleton_inj] at htr
      subst htr
      have := nil_inv h1
      subst this
      exact ⟨rfl, hstep, h2⟩
    . simp at htr

/-- A run seen from one of its steps. -/
theorem at_edge {e : Edge σ α ω} (h : Run m s (tr1 ++ e :: tr2) u)
    : Run m s tr1 e.pre ∧ m.step e.pre e.act = .ok (e.post, e.out) ∧ Run m e.post tr2 u := by
  rcases split h with ⟨t, h1, h2⟩
  rcases cons_inv h2 with ⟨hpre, hstep, h3⟩
  subst hpre
  exact ⟨h1, hstep, h3⟩

theorem step_of_mem {e : Edge σ α ω} (h : Run m s tr u) (he : e ∈ tr)
    : m.step e.pre e.act = .ok (e.post, e.out) := by
  rcases List.append_of_mem he with ⟨tr1, tr2, rfl⟩
  exact (at_edge h).2.1

theorem unique (h1 : Run m s tr t) (h2 : Run m s tr u) : t = u := by
  cases tr using List.reverseRecOn with
  | nil => rw [nil_inv h1, nil_inv h2]
  | append_singleton tr e =>
    have hlast : ∀ {v : σ}, Run m s (tr ++ [e]) v → v = e.post := by
      intro v h
      exact nil_inv (at_edge h).2.2
    rw [hlast h1, hlast h2]

theorem rel {R : σ → σ → Prop} (h : Run m s tr t) (hrefl : ∀ s, R s s)
    (htrans : ∀ {s t u}, R s t → R t u → R s u)
    (hstep : ∀ {s a o t}, m.step s a = .ok (t, o) → R s t)
    : R s t := by
  induction h with
  | nil => exact hrefl s
  | snoc _ hlast ih => exact htrans ih (hstep hlast)

/-- What holds at first and is kept by every step that meets the guard holds of the whole run. The guard
may look at what came before the step. -/
theorem history_of_past_guard {P : List (Edge σ α ω) → σ → Prop}
    {C : List (Edge σ α ω) → Edge σ α ω → Prop}
    (h : Run m s tr t) (h0 : P [] s) (hC : ∀ tr1 e tr2, tr = tr1 ++ e :: tr2 → C tr1 e)
    (hstep : ∀ {tr t a o u}, Run m s tr t → P tr t → C tr ⟨t, a, o, u⟩
      → m.step t a = .ok (u, o) → P (tr ++ [⟨t, a, o, u⟩]) u)
    : P tr t := by
  induction h with
  | nil => exact h0
  | @snoc tr t u a o h hlast ih =>
    rw [forall_split_concat_iff] at hC
    exact hstep h (ih hC.1) hC.2 hlast

theorem history_of_guard {P : List (Edge σ α ω) → σ → Prop} {C : σ → α → Prop}
    (h : Run m s tr t) (h0 : P [] s) (hC : ∀ e ∈ tr, C e.pre e.act)
    (hstep : ∀ {tr t a o u}, Run m s tr t → P tr t → C t a → m.step t a = .ok (u, o)
      → P (tr ++ [⟨t, a, o, u⟩]) u)
    : P tr t := by
  refine history_of_past_guard (C := fun _ e => C e.pre e.act) h h0 ?_ hstep
  rintro tr1 e tr2 rfl
  apply hC
  simp

theorem invariant_of_guard {I : σ → Prop} {C : σ → α → Prop}
    (h : Run m s tr t) (h0 : I s) (hC : ∀ e ∈ tr, C e.pre e.act)
    (hstep : ∀ {t a o u}, I t → C t a → m.step t a = .ok (u, o) → I u)
    : I t :=
  history_of_guard (P := fun _ t => I t) h h0 hC (fun _ hI hc hs => hstep hI hc hs)

theorem history {P : List (Edge σ α ω) → σ → Prop} (h : Run m s tr t) (h0 : P [] s)
    (hstep : ∀ {tr t a o u}, Run m s tr t → P tr t → m.step t a = .ok (u, o)
      → P (tr ++ [⟨t, a, o, u⟩]) u)
    : P tr t :=
  history_of_guard (C := fun _ _ => True) h h0 (fun _ _ => trivial)
    (fun hr hP _ hs => hstep hr hP hs)

theorem invariant {I : σ → Prop} (h : Run m s tr t) (h0 : I s)
    (hstep : ∀ {t a o u}, I t → m.step t a = .ok (u, o) → I u)
    : I t :=
  history (P := fun _ t => I t) h h0 (fun _ hI hs => hstep hI hs)

/--
If a step after steps that met the guard keeps a property exactly when it meets the guard, then a run has
the property all along exactly when all of its steps meet the guard.
-/
theorem forall_prefix_iff_past_guard {P : List (Edge σ α ω) → σ → Prop} {C : σ → α → Prop}
    (h : Run m s tr t) (h0 : P [] s)
    (hstep : ∀ {tr t a o u}, Run m s tr t → (∀ e ∈ tr, C e.pre e.act) → P tr t → m.step t a = .ok (u, o)
      → (P (tr ++ [⟨t, a, o, u⟩]) u ↔ C t a))
    : (∀ tr' t', tr' <+: tr → Run m s tr' t' → P tr' t') ↔ ∀ e ∈ tr, C e.pre e.act := by
  induction h with
  | nil =>
    constructor
    . intro _ e he
      contradiction
    . intro _ tr' t' hpre h'
      cases List.prefix_nil.mp hpre
      rw [nil_inv h']
      exact h0
  | @snoc tr t u a o h hlast ih =>
    -- The prefixes of the longer run are those of the shorter one and the whole.
    have hsplit : (∀ tr' t', tr' <+: tr ++ [⟨t, a, o, u⟩] → Run m s tr' t' → P tr' t')
        ↔ (∀ tr' t', tr' <+: tr → Run m s tr' t' → P tr' t') ∧ P (tr ++ [⟨t, a, o, u⟩]) u := by
      constructor
      . intro hall
        exact ⟨fun tr' t' hpre => hall tr' t' (hpre.trans (List.prefix_append _ _)),
          hall _ u (List.prefix_refl _) (.snoc h hlast)⟩
      . rintro ⟨hpast, hnow⟩ tr' t' hpre h'
        rcases List.prefix_concat_iff.mp hpre with rfl | hpre
        . rw [unique h' (.snoc h hlast)]
          exact hnow
        . exact hpast tr' t' hpre h'
    rw [hsplit, ih, List.forall_mem_append, List.forall_mem_singleton]
    apply and_congr_right
    intro hpast
    exact hstep h hpast (ih.mpr hpast tr t (List.prefix_refl tr) h) hlast

/--
If a step keeps a property exactly when it meets the guard, then a run has the property all along
exactly when all of its steps meet the guard.
-/
theorem forall_prefix_iff_guard {P : List (Edge σ α ω) → σ → Prop} {C : σ → α → Prop}
    (h : Run m s tr t) (h0 : P [] s)
    (hstep : ∀ {tr t a o u}, Run m s tr t → P tr t → m.step t a = .ok (u, o)
      → (P (tr ++ [⟨t, a, o, u⟩]) u ↔ C t a))
    : (∀ tr' t', tr' <+: tr → Run m s tr' t' → P tr' t') ↔ ∀ e ∈ tr, C e.pre e.act :=
  forall_prefix_iff_past_guard h h0 (fun hr _ hP hs => hstep hr hP hs)

/--
If a step has a property exactly when it meets a guard, where an invariant holds that a step with the
property keeps, then all steps of a run have the property exactly when all of them meet the guard.
Property and guard may look at what came before the step.
-/
theorem forall_edge_iff_past_guard {I : List (Edge σ α ω) → σ → Prop}
    {P C : List (Edge σ α ω) → Edge σ α ω → Prop} (h : Run m s tr t) (h0 : I [] s)
    (hkeep : ∀ {tr t a o u}, I tr t → P tr ⟨t, a, o, u⟩ → m.step t a = .ok (u, o)
      → I (tr ++ [⟨t, a, o, u⟩]) u)
    (hstep : ∀ {tr t a o u}, I tr t → m.step t a = .ok (u, o)
      → (P tr ⟨t, a, o, u⟩ ↔ C tr ⟨t, a, o, u⟩))
    : (∀ tr1 e tr2, tr = tr1 ++ e :: tr2 → P tr1 e)
        ↔ ∀ tr1 e tr2, tr = tr1 ++ e :: tr2 → C tr1 e := by
  induction h with
  | nil => simp
  | snoc h hlast ih =>
    rw [forall_split_concat_iff, forall_split_concat_iff, ← ih]
    apply and_congr_right
    intro hpast
    have hI := h.history_of_past_guard (P := I) h0 hpast (fun _ hI hP hs => hkeep hI hP hs)
    exact hstep hI hlast

end Run

theorem run_of_exec {s t : σ} {as : List α} {tr : List (Edge σ α ω)}
    (h : m.exec s as = .ok (tr, t)) : Run m s tr t ∧ tr.map Edge.act = as := by
  induction as generalizing s tr with
  | nil =>
    simp only [exec, Except.ok.injEq, Prod.mk.injEq] at h
    rcases h with ⟨rfl, rfl⟩
    exact ⟨.nil, rfl⟩
  | cons a as ih =>
    unfold exec at h
    split at h
    . contradiction
    . next hstep =>
      split at h
      . contradiction
      . next hrest =>
        simp only [Except.ok.injEq, Prod.mk.injEq] at h
        rcases h with ⟨rfl, rfl⟩
        rcases ih hrest with ⟨hrun, hacts⟩
        exact ⟨.cons hstep hrun, by rw [List.map_cons, hacts]⟩

theorem exists_run_of_check {s : σ} {as : List α} {test : List (Edge σ α ω) → σ → Bool}
    (h : m.check s as test = true)
    : ∃ tr t, Run m s tr t ∧ tr.map Edge.act = as ∧ test tr t = true := by
  unfold check at h
  split at h
  . contradiction
  . next tr t hexec =>
    rcases run_of_exec hexec with ⟨hrun, hacts⟩
    exact ⟨tr, t, hrun, hacts, h⟩

/-- The actions of a run tell the run. -/
theorem Run.unique_of_acts {s t u : σ} {tr1 tr2 : List (Edge σ α ω)} (h1 : Run m s tr1 t)
    (h2 : Run m s tr2 u) (hacts : tr1.map Edge.act = tr2.map Edge.act) : tr1 = tr2 ∧ t = u := by
  induction h1 generalizing tr2 u with
  | nil =>
    rw [List.map_nil, eq_comm, List.map_eq_nil_iff] at hacts
    subst hacts
    exact ⟨rfl, h2.nil_inv.symm⟩
  | @snoc tr1 t v a o h1 hstep ih =>
    cases h2 with
    | nil => simp at hacts
    | @snoc tr2 t' v' a' o' h2 hstep' =>
      rw [List.map_append, List.map_append] at hacts
      rcases List.append_inj' hacts rfl with ⟨hpast, hlast⟩
      rcases ih h2 hpast with ⟨rfl, rfl⟩
      simp only [List.map_cons, List.map_nil, List.cons.injEq, and_true] at hlast
      subst hlast
      rw [hstep] at hstep'
      cases hstep'
      exact ⟨rfl, rfl⟩

/--
If a step can be taken exactly when it meets the guard, then a list of actions can be run through exactly
when each of them meets the guard where it is taken.
-/
theorem exists_run_iff_guard {s : σ} {C : σ → α → Prop}
    (hstep : ∀ {tr t a}, Run m s tr t → ((∃ u o, m.step t a = .ok (u, o)) ↔ C t a)) (as : List α)
    : (∃ tr t, Run m s tr t ∧ tr.map Edge.act = as)
        ↔ ∀ as1 a as2, as = as1 ++ a :: as2
          → ∀ tr t, Run m s tr t → tr.map Edge.act = as1 → C t a := by
  constructor
  . rintro ⟨tr, t, hrun, hacts⟩ as1 a as2 has tr1 t1 hrun1 hacts1
    rw [has, List.map_eq_append_iff] at hacts
    rcases hacts with ⟨tr1', tr2, rfl, hpast, hrest⟩
    rw [List.map_eq_cons_iff] at hrest
    rcases hrest with ⟨e, tr2, rfl, rfl, _⟩
    rcases hrun.at_edge with ⟨h1, hs, _⟩
    rcases hrun1.unique_of_acts h1 (hacts1.trans hpast.symm) with ⟨_, rfl⟩
    exact (hstep h1).mp ⟨_, _, hs⟩
  . intro hC
    induction as using List.reverseRecOn with
    | nil => exact ⟨[], s, .nil, rfl⟩
    | append_singleton as a ih =>
      have hpast : ∀ as1 b as2, as = as1 ++ b :: as2
          → ∀ tr t, Run m s tr t → tr.map Edge.act = as1 → C t b := by
        rintro as1 b as2 rfl
        exact hC as1 b (as2 ++ [a]) (by simp)
      rcases ih hpast with ⟨tr, t, hrun, hacts⟩
      rcases (hstep hrun).mpr (hC as a [] rfl tr t hrun hacts) with ⟨u, o, hs⟩
      exact ⟨_, u, .snoc hrun hs, by rw [List.map_append, hacts]; rfl⟩

/-- Where every step can be taken, every list of actions can be run through. -/
theorem exists_run_of_total (htotal : ∀ s a, ∃ t o, m.step s a = .ok (t, o)) (s : σ) (as : List α)
    : ∃ tr t, Run m s tr t ∧ tr.map Edge.act = as := by
  refine (exists_run_iff_guard (C := fun _ _ => True) ?_ as).mpr ?_
  . intro tr t a _
    simp [htotal t a]
  . intros
    trivial

end Machine

end Lib
