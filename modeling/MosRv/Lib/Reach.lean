import Mathlib.Tactic

/-!
# Reachable states

A system is a predicate on initial states and a labelled step relation.  A run is restricted by a
condition on its steps (`When C step`), which may look at the state a step starts from and at its
label; this is how a property is said to hold *in every run whose steps meet a condition*.

`Reachable.invariant` is the induction over a run: an invariant holds at the start and every step
keeps it.  `Reachable.foldlM` is a run of a function that computes steps.  `Reachable.invariant_of`
lets the step use an invariant proved before.  `Tracked` carries a history along: a value that every
step updates, looking at both states and at the label.
-/

namespace Reach

variable {σ γ ε : Type}

/-- The steps that meet the condition `C`. -/
def When (C : σ → ε → Prop) (step : σ → ε → σ → Prop) (s : σ) (e : ε) (s' : σ) : Prop :=
  C s e ∧ step s e s'

/-- The states that runs reach. -/
inductive Reachable (init : σ → Prop) (step : σ → ε → σ → Prop) : σ → Prop
  | init {s : σ} (h : init s) : Reachable init step s
  | step {s s' : σ} {e : ε} (hs : Reachable init step s) (h : step s e s') : Reachable init step s'

namespace Reachable

variable {init : σ → Prop} {step step' : σ → ε → σ → Prop} {I J : σ → Prop} {s : σ}

/-- **The invariant rule.** -/
lemma invariant (h : Reachable init step s) (hinit : ∀ s, init s → I s)
    (hstep : ∀ s e s', I s → step s e s' → I s') : I s := by
  induction h with
  | init h => exact hinit _ h
  | step _ h ih => exact hstep _ _ _ ih h

/-- The invariant rule, with an invariant that is known already. -/
lemma invariant_of (h : Reachable init step s) (hJ : ∀ s, Reachable init step s → J s)
    (hinit : ∀ s, init s → J s → I s)
    (hstep : ∀ s e s', J s → J s' → I s → step s e s' → I s') : I s := by
  induction h with
  | init h => exact hinit _ h (hJ _ (.init h))
  | step hs h ih => exact hstep _ _ _ (hJ _ hs) (hJ _ (.step hs h)) ih h

/-- A run by evaluation. -/
lemma foldlM {next : σ → ε → Option σ} {es : List ε} {s' : σ} (h : Reachable init step s)
    (hnext : ∀ s e s', next s e = some s' → step s e s') (hr : es.foldlM next s = some s') :
    Reachable init step s' := by
  induction es generalizing s with
  | nil =>
      obtain rfl := Option.some.inj hr
      exact h
  | cons e es ih =>
      rw [List.foldlM_cons] at hr
      obtain ⟨s₁, hs₁, hr⟩ := Option.bind_eq_some_iff.mp hr
      exact ih (h.step (hnext s e s₁ hs₁)) hr

lemma mono (h : Reachable init step s) (hle : ∀ s e s', step s e s' → step' s e s') :
    Reachable init step' s := by
  induction h with
  | init h => exact .init h
  | step _ h ih => exact ih.step (hle _ _ _ h)

end Reachable

/-- The system with a history, which starts at `g₀` and which `upd` carries along. -/
def Tracked (upd : σ → ε → σ → γ → γ) (step : σ → ε → σ → Prop) (x : σ × γ) (e : ε) (x' : σ × γ) :
    Prop :=
  step x.1 e x'.1 ∧ x'.2 = upd x.1 e x'.1 x.2

end Reach
