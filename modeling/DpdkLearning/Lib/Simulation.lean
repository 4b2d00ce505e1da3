import DpdkLearning.Lib.Machine

/-!
This module contains the rules that take the runs of one machine for runs of another: where every step is
matched by some steps with the same observations, every run is, and where a part of the state only changes by
steps of its own, the run of the whole is one of the part.
-/

namespace Lib

namespace Machine

variable {σ α ω ε τ β χ δ γ : Type} {m : Machine σ α ω ε} {n : Machine τ β χ δ}

/--
The other machine can go on from `a`, with what is observed, to a state that is related to `t`.
-/
def Matches (n : Machine τ β χ δ) (g : Edge τ β χ → List γ) (R : τ → σ → Prop) (a : τ) (seen : List γ)
    (t : σ) : Prop :=
  ∃ tr b, Run n a tr b ∧ tr.flatMap g = seen ∧ R b t

variable {g : Edge τ β χ → List γ} {R : τ → σ → Prop} {a b : τ} {s t : σ} {tr : List (Edge σ α ω)}

theorem Matches.refl (h : R a s) : Matches n g R a [] s :=
  ⟨[], a, .nil, rfl, h⟩

theorem Matches.step {c : β} {o : χ} (hstep : n.step a c = .ok (b, o)) (h : R b t)
    : Matches n g R a (g ⟨a, c, o, b⟩) t := by
  refine ⟨[⟨a, c, o, b⟩], b, .snoc .nil hstep, ?_, h⟩
  apply List.flatMap_singleton

theorem Matches.mono {R' : τ → σ → Prop} {seen : List γ} (h : Matches n g R a seen t)
    (himp : ∀ b, R b t → R' b t) : Matches n g R' a seen t := by
  rcases h with ⟨tr, b, hrun, hseen, hR⟩
  exact ⟨tr, b, hrun, hseen, himp b hR⟩

/-- The relation is kept over a run whose steps, as far as they meet the guard, are matched. -/
theorem Run.matched_of_past_guard {f : Edge σ α ω → List γ}
    {C : List (Edge σ α ω) → Edge σ α ω → Prop} (h : Run m s tr t) (h0 : R a s)
    (hC : ∀ tr1 e tr2, tr = tr1 ++ e :: tr2 → C tr1 e)
    (hstep : ∀ {tr b t c o u}, Matches n g R a (tr.flatMap f) t → R b t → C tr ⟨t, c, o, u⟩
      → m.step t c = .ok (u, o) → Matches n g R b (f ⟨t, c, o, u⟩) u)
    : Matches n g R a (tr.flatMap f) t := by
  refine h.history_of_past_guard (P := fun tr t => Matches n g R a (tr.flatMap f) t) (C := C)
    (.refl h0) hC ?_
  intro tr t c o u _ hpast hc hlast
  rcases hpast with ⟨tr', b, hrun, hseen, hR⟩
  rcases hstep ⟨tr', b, hrun, hseen, hR⟩ hR hc hlast with ⟨tr'', b', hrun', hseen', hR'⟩
  refine ⟨tr' ++ tr'', b', hrun.append hrun', ?_, hR'⟩
  rw [List.flatMap_append, List.flatMap_append, hseen, hseen', List.flatMap_singleton]

/-- A run of the whole is one of a part of it that an invariant lets only go on by its own steps. -/
theorem Run.projects {view : σ → τ} {f : ω → Option χ} {I : σ → Prop} (h : Run m s tr t) (h0 : I s)
    (hquiet : ∀ {t c o u}, I t → m.step t c = .ok (u, o) → f o = none → view u = view t)
    (hmove : ∀ {t c o u x}, I t → m.step t c = .ok (u, o) → f o = some x
      → ∃ d, n.step (view t) d = .ok (view u, x))
    (hkeep : ∀ {t c o u}, I t → m.step t c = .ok (u, o) → I u)
    : ∃ tr', Run n (view s) tr' (view t) ∧ tr'.map Edge.out = (tr.map Edge.out).filterMap f := by
  refine h.history (P := fun tr t => ∃ tr', Run n (view s) tr' (view t)
    ∧ tr'.map Edge.out = (tr.map Edge.out).filterMap f) ⟨[], .nil, rfl⟩ ?_
  rintro tr t c o u hrun ⟨tr', hrun', houts⟩ hstep
  have hI := hrun.invariant h0 hkeep
  rw [List.map_append, List.filterMap_append, ← houts]
  cases hout : f o with
  | none =>
    refine ⟨tr', ?_, by simp [hout]⟩
    rw [hquiet hI hstep hout]
    exact hrun'
  | some x =>
    rcases hmove hI hstep hout with ⟨d, hd⟩
    exact ⟨_, .snoc hrun' hd, by simp [hout]⟩

end Machine

end Lib
