import MosRv.Lib.Prog

/-!
# Loops with local variables

`iter body fuel a` runs `body` on the local variables `a` of a loop until it hands over a result; a
`break`, or a `return` from inside the loop, is such a result.  Nothing makes a C loop end, so there
is a number of rounds after which it is given up with a panic of its own.  `wp_iter` is the rule for
total correctness: an invariant, and a measure that every round makes smaller and that is less than
the number of rounds.  `whileDo` is the loop whose condition only looks at the local variables.
-/

/-- The rounds of a loop are used up. -/
inductive OutOfFuel
  | outOfFuel

namespace Prog

variable {ε π σ α β : Type}

/-- Runs `body` until it hands over a `β`, at most `fuel` times. -/
def iter (stuck : π) (body : α → Prog ε π σ (α ⊕ β)) : ℕ → α → Prog ε π σ β
  | 0, _ => panic stuck
  | fuel + 1, a => do
      match ← body a with
      | .inl a' => iter stuck body fuel a'
      | .inr b => pure b

/-- `while (c) body`. -/
def whileDo (stuck : π) (c : α → Prop) [DecidablePred c] (body : α → Prog ε π σ α)
    (fuel : ℕ) (a : α) :
    Prog ε π σ α :=
  iter stuck (fun a => if c a then do pure (.inl (← body a)) else pure (.inr a)) fuel a

section

variable {stuck : π} {E : ε → σ → Prop} {P : π → Prop}

/-- Weakens the postcondition on values only. -/
lemma wp.imp {x : Prog ε π σ α} {s : σ} {Q Q' : α → σ → Prop} (h : wp x s Q E P)
    (hQ : ∀ a s', Q a s' → Q' a s') : wp x s Q' E P :=
  h.mono hQ (fun _ _ he => he) fun _ hp => hp

/-- What follows from every way to end is the case. -/
lemma wp.elim {x : Prog ε π σ α} {s : σ} {Q : α → σ → Prop} {C : Prop} (h : wp x s Q E P)
    (hQ : ∀ a s', Q a s' → C) (hE : ∀ e s', E e s' → C) (hP : ∀ p, P p → C) : C := by
  unfold wp at h
  cases hx : x s with
  | ok a s' => exact hQ a s' (by rwa [hx] at h)
  | exit e s' => exact hE e s' (by rwa [hx] at h)
  | panic p => exact hP p (by rwa [hx] at h)

/-- **The rule for total correctness.**  The invariant is indexed by a bound on the rounds to come.
-/
lemma wp_iter_index {body : α → Prog ε π σ (α ⊕ β)} {Q : β → σ → Prop} (I : ℕ → α → σ → Prop)
    (hstep : ∀ k a s, I k a s → wp (body a) s
      (fun r s' => r.elim (fun a' => ∃ k' < k, I k' a' s') fun b => Q b s') E P)
    {fuel k : ℕ} {a : α} {s : σ} (h : I k a s) (hfuel : k < fuel) :
    wp (iter stuck body fuel a) s Q E P := by
  induction fuel generalizing k a s with
  | zero => exact absurd hfuel (Nat.not_lt_zero _)
  | succ fuel ih =>
      unfold iter
      rw [wp_bind]
      apply (hstep k a s h).imp
      intro r s' hr
      cases r with
      | inl a' =>
          obtain ⟨k', hk', h'⟩ := hr
          exact ih h' (by omega)
      | inr b => exact hr

/-- The rule with a measure of the state. -/
lemma wp_iter {body : α → Prog ε π σ (α ⊕ β)} {Q : β → σ → Prop} (I : α → σ → Prop)
    (V : α → σ → ℕ)
    (hstep : ∀ a s, I a s → wp (body a) s
      (fun r s' => r.elim (fun a' => I a' s' ∧ V a' s' < V a s) fun b => Q b s') E P)
    {fuel : ℕ} {a : α} {s : σ} (h : I a s) (hfuel : V a s < fuel) :
    wp (iter stuck body fuel a) s Q E P := by
  apply wp_iter_index (fun k a s => I a s ∧ V a s = k) _ ⟨h, rfl⟩ hfuel
  intro k a s hI
  obtain ⟨hI, rfl⟩ := hI
  apply (hstep a s hI).imp
  intro r s' hr
  cases r with
  | inl a' => exact ⟨V a' s', hr.2, hr.1, rfl⟩
  | inr b => exact hr

lemma wp_whileDo {c : α → Prop} [DecidablePred c] {body : α → Prog ε π σ α} (I : α → σ → Prop)
    (V : α → ℕ)
    (hstep : ∀ a s, I a s → c a → wp (body a) s (fun a' s' => I a' s' ∧ V a' < V a) E P)
    {fuel : ℕ} {a : α} {s : σ} (h : I a s) (hfuel : V a < fuel) :
    wp (whileDo stuck c body fuel a) s (fun a' s' => I a' s' ∧ ¬ c a') E P := by
  unfold whileDo
  apply wp_iter I (fun a _ => V a) _ h hfuel
  intro a s h
  rw [wp_ite]
  constructor
  · intro hc
    rw [wp_bind]
    exact hstep a s h hc
  · exact fun hc => ⟨h, hc⟩

/-- A loop that always goes round again uses up its rounds. -/
lemma wp_whileDo_endless {c : α → Prop} [DecidablePred c] {body : α → Prog ε π σ α}
    (I : α → σ → Prop) (hc : ∀ a s, I a s → c a)
    (hstep : ∀ a s, I a s → wp (body a) s I (fun _ _ => False) fun _ => False) (fuel : ℕ) {a : α}
    {s : σ} (h : I a s) :
    wp (whileDo stuck c body fuel a) s (fun _ _ => False) (fun _ _ => False) (· = stuck) := by
  unfold whileDo
  induction fuel generalizing a s with
  | zero => exact rfl
  | succ fuel ih =>
      unfold iter
      rw [if_pos (hc a s h), wp_bind, wp_bind]
      exact (hstep a s h).mono (fun _ _ h' => ih h') (fun _ _ h' => h'.elim) fun _ h' => h'.elim

end

end Prog
