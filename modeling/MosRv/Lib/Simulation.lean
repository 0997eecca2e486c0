import MosRv.Lib.Prog

/-!
# Programs that simulate each other

Two programs that do the same on different representations of a state.  `Simulates R Q E x y` says
that from states which `R` relates both end in the same way: with the same value, in states which
`Q` relates, with the same exit, in states which `E` relates, or with the same panic.  The rules
follow the programs; `related_bind` is the one for sequencing, and `Simulates.forRange` is the loop
rule, with a relation that changes from round to round.
-/

variable {ε π σ τ α β : Type}

/-- Two programs have ended in the same way. -/
inductive Outcome.Related (Q E : σ → τ → Prop) : Outcome ε π σ α → Outcome ε π τ α → Prop
  | ok {a : α} {s : σ} {t : τ} (h : Q s t) : Related Q E (.ok a s) (.ok a t)
  | exit {e : ε} {s : σ} {t : τ} (h : E s t) : Related Q E (.exit e s) (.exit e t)
  | panic (p : π) : Related Q E (.panic p) (.panic p)

lemma Outcome.Related.mono {Q Q' E : σ → τ → Prop} {o : Outcome ε π σ α} {o' : Outcome ε π τ α}
    (h : Related Q E o o') (hQ : ∀ s t, Q s t → Q' s t) : Related Q' E o o' := by
  cases h with
  | ok h => exact .ok (hQ _ _ h)
  | exit h => exact .exit h
  | panic p => exact .panic p

namespace Prog

/-- From `R`-related states, `x` and `y` end in the same way. -/
def Simulates (R Q E : σ → τ → Prop) (x : Prog ε π σ α) (y : Prog ε π τ α) : Prop :=
  ∀ s t, R s t → Outcome.Related Q E (x s) (y t)

/-- What comes next need only be related after the runs that there are. -/
lemma related_bind {Q Q' E : σ → τ → Prop} {x : Prog ε π σ β} {y : Prog ε π τ β}
    {f : β → Prog ε π σ α} {g : β → Prog ε π τ α} {s : σ} {t : τ}
    (h : Outcome.Related Q E (x s) (y t))
    (hf : ∀ b s' t', y t = .ok b t' → Q s' t' → Outcome.Related Q' E (f b s') (g b t')) :
    Outcome.Related Q' E ((x >>= f) s) ((y >>= g) t) := by
  change Outcome.Related Q' E (bind x f s) (bind y g t)
  unfold bind
  cases hx : x s with
  | ok b s' =>
      rw [hx] at h
      cases hy : y t <;> rw [hy] at h <;> cases h
      exact hf _ _ _ hy ‹_›
  | exit e s' =>
      rw [hx] at h
      cases hy : y t <;> rw [hy] at h <;> cases h
      exact .exit ‹_›
  | panic p =>
      rw [hx] at h
      cases hy : y t <;> rw [hy] at h <;> cases h
      exact .panic p

namespace Simulates

variable {R Q E : σ → τ → Prop}

lemma pure (h : ∀ s t, R s t → Q s t) (a : α) :
    Simulates R Q E (Pure.pure a : Prog ε π σ α) (Pure.pure a) :=
  fun s t hR => .ok (h s t hR)

lemma modify {f : σ → σ} {g : τ → τ} (h : ∀ s t, R s t → Q (f s) (g t)) :
    Simulates R Q E (Prog.modify f : Prog ε π σ Unit) (Prog.modify g) :=
  fun s t hR => .ok (h s t hR)

lemma bind (R' : σ → τ → Prop) {x : Prog ε π σ β} {y : Prog ε π τ β} {f : β → Prog ε π σ α}
    {g : β → Prog ε π τ α} (hx : Simulates R R' E x y)
    (hf : ∀ b, Simulates R' Q E (f b) (g b)) : Simulates R Q E (x >>= f) (y >>= g) :=
  fun s t hR => related_bind (hx s t hR) fun b s' t' _ h => hf b s' t' h

/-- A program may look at its state: the two go on from what they have seen. -/
lemma get_bind {f : σ → Prog ε π σ α} {g : τ → Prog ε π τ α}
    (h : ∀ s t, R s t → Outcome.Related Q E (f s s) (g t t)) :
    Simulates R Q E (Prog.get >>= f) (Prog.get >>= g) :=
  fun s t hR => h s t hR

/-- An exit that is caught leaves the two at the same place. -/
lemma attempt {x : Prog ε π σ α} {y : Prog ε π τ α} (h : Simulates R Q Q x y) :
    Simulates R Q E (Prog.attempt x) (Prog.attempt y) := by
  intro s t hR
  have hxy := h s t hR
  unfold Prog.attempt
  cases hx : x s <;> rw [hx] at hxy <;> cases hy : y t <;> rw [hy] at hxy <;> cases hxy
  · exact .ok ‹_›
  · exact .ok ‹_›
  · exact .panic _

/-- **The loop rule.** -/
lemma forRange {body : ℕ → Prog ε π σ Unit} {body' : ℕ → Prog ε π τ Unit} (I : ℕ → σ → τ → Prop) :
    ∀ (n lo : ℕ), (∀ i, lo ≤ i → i < lo + n → Simulates (I i) (I (i + 1)) E (body i) (body' i)) →
      Simulates (I lo) (I (lo + n)) E (Prog.forRange body lo n) (Prog.forRange body' lo n)
  | 0, lo, _ => by
      rw [forRange_zero, forRange_zero]
      exact pure (fun _ _ h => h) ()
  | n + 1, lo, hbody => by
      rw [forRange_succ, forRange_succ, show lo + (n + 1) = lo + 1 + n by omega]
      refine bind _ (hbody lo le_rfl (by omega)) fun _ => ?_
      exact forRange I n (lo + 1) fun i hlo hi => hbody i (by omega) (by omega)

end Simulates

end Prog
