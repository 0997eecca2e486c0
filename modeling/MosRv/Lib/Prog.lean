import Mathlib.Tactic

/-!
# Programs with a state, early exits and panics

A shallow embedding of C-like kernel code: a `Prog ε π σ α` is a function from a state to an
`Outcome`, which is a value with the new state, an *early exit* with a code (also with the new
state: nothing is rolled back), or a *panic*, after which there is no state at all.  The early
exit is what a `return -E_X` in the middle of a function, or a call that never comes back to its
caller, does to everything after it.

`wp x s Q E P` is the weakest precondition of `x` at the state `s` for a postcondition `Q` on
values, `E` on exits and `P` on panics.  The `wp_*` rules are `simp` lemmas that execute a program
symbolically; a function with a specification of its own is used through `wp.mono`. `Exits C x` says
that `x` leaves early only with exits in `C`, and `AtomicAt R x s` that it leaves no trace when it
does; `Maintains I C x`, that it keeps the invariant `I` and then panics only in `C`. `forRange` is
the counting loop, with `wp_forRange` its invariant rule, and `zoom` runs a program on a component
of a larger state.
-/

/-- How a program ends: with a value, by an early exit, or by a panic. -/
inductive Outcome (ε π σ α : Type) where
  /-- The program returned `a` in state `s`. -/
  | ok (a : α) (s : σ)
  /-- The program was left early with `e`; the effects up to there stay in `s`. -/
  | exit (e : ε) (s : σ)
  /-- The program panicked; nothing runs after it. -/
  | panic (p : π)

namespace Outcome

variable {ε π σ α : Type} {o : Outcome ε π σ α}

/-- Whether the program returned, and what it returned passes a test. -/
def returned (test : α → σ → Bool) : Outcome ε π σ α → Bool
  | ok a s => test a s
  | _ => false

/-- Whether the program was left early, in a state that passes a test. -/
def exited (test : ε → σ → Bool) : Outcome ε π σ α → Bool
  | exit e s => test e s
  | _ => false

lemma returned_iff {test : α → σ → Bool} :
    o.returned test = true ↔ ∃ a s, o = ok a s ∧ test a s = true := by
  cases o <;> simp [returned]

lemma exited_iff {test : ε → σ → Bool} :
    o.exited test = true ↔ ∃ e s, o = exit e s ∧ test e s = true := by
  cases o <;> simp [exited]

end Outcome

/-- A program over states `σ` with exits `ε` and panics `π`, returning an `α`. -/
def Prog (ε π σ α : Type) : Type := σ → Outcome ε π σ α

namespace Prog

variable {ε π σ τ α β : Type}

/-! ## Basic programs -/

/-- Sequencing: exits and panics skip the rest. -/
def bind (x : Prog ε π σ α) (f : α → Prog ε π σ β) : Prog ε π σ β := fun s =>
  match x s with
  | .ok a s' => f a s'
  | .exit e s' => .exit e s'
  | .panic p => .panic p

instance : Monad (Prog ε π σ) where
  pure a := fun s => .ok a s
  bind := bind

/-- Leave the program with `e`. -/
def exit (e : ε) : Prog ε π σ α := fun s => .exit e s

/-- Stop the machine. -/
def panic (p : π) : Prog ε π σ α := fun _ => .panic p

/-- The current state. -/
def get : Prog ε π σ σ := fun s => .ok s s

/-- Replace the state. -/
def set (s : σ) : Prog ε π σ Unit := fun _ => .ok () s

/-- Update the state. -/
def modify (f : σ → σ) : Prog ε π σ Unit := fun s => .ok () (f s)

/-- Run `x` and hand its exit over as a value, so that the caller goes on. -/
def attempt (x : Prog ε π σ α) : Prog ε π σ (Except ε α) := fun s =>
  match x s with
  | .ok a s' => .ok (.ok a) s'
  | .exit e s' => .ok (.error e) s'
  | .panic p => .panic p

/-- Run a program on the component `get s` of the state. -/
def zoom (get : σ → τ) (put : τ → σ → σ) (x : Prog ε π τ α) : Prog ε π σ α := fun s =>
  match x (get s) with
  | .ok a t => .ok a (put t s)
  | .exit e t => .exit e (put t s)
  | .panic p => .panic p

/-- `body lo, body (lo + 1), …`, `n` times. -/
def forRange (body : ℕ → Prog ε π σ Unit) : (lo n : ℕ) → Prog ε π σ Unit
  | _, 0 => pure ()
  | lo, n + 1 => do body lo; forRange body (lo + 1) n

/-! ## Weakest preconditions -/

/-- From `s`, every way `x` can end satisfies its postcondition. -/
def wp (x : Prog ε π σ α) (s : σ) (Q : α → σ → Prop) (E : ε → σ → Prop) (P : π → Prop) : Prop :=
  match x s with
  | .ok a s' => Q a s'
  | .exit e s' => E e s'
  | .panic p => P p

section Rules

variable {s : σ} {Q Q' : α → σ → Prop} {E E' : ε → σ → Prop} {P P' : π → Prop}

lemma wp.mono {x : Prog ε π σ α} (h : wp x s Q E P) (hQ : ∀ a s', Q a s' → Q' a s')
    (hE : ∀ e s', E e s' → E' e s') (hP : ∀ p, P p → P' p) : wp x s Q' E' P' := by
  unfold wp at h ⊢
  cases hx : x s with
  | ok a s' => exact hQ a s' (by rwa [hx] at h)
  | exit e s' => exact hE e s' (by rwa [hx] at h)
  | panic p => exact hP p (by rwa [hx] at h)

/-- A weakest precondition speaks about the three ways of ending separately. -/
lemma wp_iff {x : Prog ε π σ α} :
    wp x s Q E P ↔ (∀ a s', x s = .ok a s' → Q a s') ∧ (∀ e s', x s = .exit e s' → E e s') ∧
      ∀ p, x s = .panic p → P p := by
  unfold wp
  cases x s <;> simp

lemma wp.of_ok {x : Prog ε π σ α} (h : wp x s Q E P) {a : α} {s' : σ} (hx : x s = .ok a s') :
    Q a s' := (wp_iff.mp h).1 a s' hx

lemma wp.of_exit {x : Prog ε π σ α} (h : wp x s Q E P) {e : ε} {s' : σ}
    (hx : x s = .exit e s') : E e s' := (wp_iff.mp h).2.1 e s' hx

lemma wp.of_panic {x : Prog ε π σ α} (h : wp x s Q E P) {p : π} (hx : x s = .panic p) : P p :=
  (wp_iff.mp h).2.2 p hx

/-- A program that can only end well does. -/
lemma wp.exists_ok {x : Prog ε π σ α} (h : wp x s Q (fun _ _ => False) (fun _ => False)) :
    ∃ a s', x s = .ok a s' ∧ Q a s' := by
  unfold wp at h
  cases hx : x s with
  | ok a s' => exact ⟨a, s', rfl, by rwa [hx] at h⟩
  | exit e s' => rw [hx] at h; exact h.elim
  | panic p => rw [hx] at h; exact h.elim

lemma wp.exists_exit {x : Prog ε π σ α} (h : wp x s (fun _ _ => False) E (fun _ => False)) :
    ∃ e s', x s = .exit e s' ∧ E e s' := by
  unfold wp at h
  cases hx : x s with
  | ok a s' => rw [hx] at h; exact h.elim
  | exit e s' => exact ⟨e, s', rfl, by rwa [hx] at h⟩
  | panic p => rw [hx] at h; exact h.elim

lemma wp.exists_panic {x : Prog ε π σ α} (h : wp x s (fun _ _ => False) (fun _ _ => False) P) :
    ∃ p, x s = .panic p ∧ P p := by
  unfold wp at h
  cases hx : x s with
  | ok a s' => rw [hx] at h; exact h.elim
  | exit e s' => rw [hx] at h; exact h.elim
  | panic p => exact ⟨p, rfl, by rwa [hx] at h⟩

/-- What a program does, as its own postcondition. -/
lemma wp_self (x : Prog ε π σ α) (s : σ) :
    wp x s (fun a s' => x s = .ok a s') (fun e s' => x s = .exit e s')
      (fun p => x s = .panic p) := by
  unfold wp
  cases x s <;> rfl

/-- A program whose run is known. -/
lemma wp_of_ok {x : Prog ε π σ α} {a : α} {s' : σ} (h : x s = .ok a s') :
    wp x s Q E P ↔ Q a s' := by
  rw [wp, h]

lemma wp.and {x : Prog ε π σ α} (h : wp x s Q E P) (h' : wp x s Q' E' P') :
    wp x s (fun a s' => Q a s' ∧ Q' a s') (fun e s' => E e s' ∧ E' e s') (fun p => P p ∧ P' p) := by
  unfold wp at h h' ⊢
  revert h h'
  cases x s <;> exact And.intro

@[simp] lemma wp_pure (a : α) : wp (pure a : Prog ε π σ α) s Q E P ↔ Q a s := Iff.rfl

@[simp] lemma wp_bind (x : Prog ε π σ β) (f : β → Prog ε π σ α) :
    wp (x >>= f) s Q E P ↔ wp x s (fun a s' => wp (f a) s' Q E P) E P := by
  change wp (Prog.bind x f) s Q E P ↔ _
  unfold wp Prog.bind
  cases x s <;> rfl

@[simp] lemma wp_exit (e : ε) : wp (exit e : Prog ε π σ α) s Q E P ↔ E e s := Iff.rfl

@[simp] lemma wp_panic (p : π) : wp (panic p : Prog ε π σ α) s Q E P ↔ P p := Iff.rfl

@[simp] lemma wp_get {Q : σ → σ → Prop} : wp (get : Prog ε π σ σ) s Q E P ↔ Q s s := Iff.rfl

@[simp] lemma wp_set (t : σ) {Q : Unit → σ → Prop} :
    wp (set t : Prog ε π σ Unit) s Q E P ↔ Q () t := Iff.rfl

@[simp] lemma wp_modify (f : σ → σ) {Q : Unit → σ → Prop} :
    wp (modify f : Prog ε π σ Unit) s Q E P ↔ Q () (f s) := Iff.rfl

@[simp] lemma wp_ite (c : Prop) [Decidable c] (x y : Prog ε π σ α) :
    wp (if c then x else y) s Q E P ↔ (c → wp x s Q E P) ∧ (¬ c → wp y s Q E P) := by
  by_cases h : c <;> simp [h]

@[simp] lemma wp_attempt (x : Prog ε π σ α) {Q : Except ε α → σ → Prop} :
    wp (attempt x) s Q E P ↔
      wp x s (fun a s' => Q (.ok a) s') (fun e s' => Q (.error e) s') P := by
  unfold wp attempt
  cases x s <;> rfl

@[simp] lemma wp_zoom {f : σ → τ} {g : τ → σ → σ} (x : Prog ε π τ α) :
    wp (zoom f g x) s Q E P ↔
      wp x (f s) (fun a t => Q a (g t s)) (fun e t => E e (g t s)) P := by
  unfold wp zoom
  cases x (f s) <;> rfl

/-- **The loop rule.**  An invariant that holds at `lo` and that every round carries from `i` to
`i + 1` holds at the end. -/
lemma wp_forRange {body : ℕ → Prog ε π σ Unit} (I : ℕ → σ → Prop) :
    ∀ (n lo : ℕ) {s : σ}, I lo s →
      (∀ i s, lo ≤ i → i < lo + n → I i s → wp (body i) s (fun _ s' => I (i + 1) s') E P) →
      wp (forRange body lo n) s (fun _ s' => I (lo + n) s') E P
  | 0, lo, s, h, _ => by simpa [forRange] using h
  | n + 1, lo, s, h, hstep => by
      rw [forRange, wp_bind]
      refine (hstep lo s le_rfl (by omega) h).mono ?_ (fun _ _ h => h) (fun _ h => h)
      intro _ s' h'
      have hrest := wp_forRange I n (lo + 1) h' fun i t hi hn => hstep i t (by omega) (by omega)
      simpa [Nat.add_assoc, Nat.add_comm 1 n] using hrest

end Rules

/-! ## Failing without a trace -/

/-- Where `x` leaves early from `s`, the state it leaves behind is `R`-related to `s`. -/
def AtomicAt (R : σ → σ → Prop) (x : Prog ε π σ α) (s : σ) : Prop :=
  ∀ e s', x s = .exit e s' → R s s'

lemma wp.atomicAt {R : σ → σ → Prop} {x : Prog ε π σ α} {s : σ} {Q : α → σ → Prop} {P : π → Prop}
    (h : wp x s Q (fun _ s' => R s s') P) : AtomicAt R x s :=
  fun _ _ hx => h.of_exit hx

/-- A program is atomic but for `c`, if `c` makes it leave early and only then a trace is left. -/
lemma wp.atomicAt_iff {R : σ → σ → Prop} {x : Prog ε π σ α} {s : σ} {c : Prop}
    (h : wp x s (fun _ _ => ¬ c) (fun _ s' => R s s' ↔ ¬ c) fun _ => ¬ c) :
    AtomicAt R x s ↔ ¬ c := by
  rw [wp_iff] at h
  obtain ⟨hok, hexit, hpanic⟩ := h
  refine ⟨fun hat => ?_, fun hc e s' hx => (hexit e s' hx).mpr hc⟩
  cases hx : x s with
  | ok a s' => exact hok a s' hx
  | exit e s' => exact (hexit e s' hx).mp (hat e s' hx)
  | panic p => exact hpanic p hx

/-! ## Exits -/

/-- The program leaves early only with exits in `C`. -/
structure Exits (C : ε → Prop) (x : Prog ε π σ α) : Prop where
  wp_true : ∀ s, wp x s (fun _ _ => True) (fun e _ => C e) fun _ => True

namespace Exits

variable {C : ε → Prop}

lemma pure (a : α) : Exits C (Pure.pure a : Prog ε π σ α) := ⟨fun _ => trivial⟩

lemma exit {e : ε} (h : C e) : Exits C (Prog.exit e : Prog ε π σ α) := ⟨fun _ => h⟩

lemma panic (p : π) : Exits C (Prog.panic p : Prog ε π σ α) := ⟨fun _ => trivial⟩

lemma get : Exits C (Prog.get : Prog ε π σ σ) := ⟨fun _ => trivial⟩

lemma set (s : σ) : Exits C (Prog.set s : Prog ε π σ Unit) := ⟨fun _ => trivial⟩

lemma modify (f : σ → σ) : Exits C (Prog.modify f : Prog ε π σ Unit) := ⟨fun _ => trivial⟩

lemma bind {x : Prog ε π σ β} {f : β → Prog ε π σ α} (hx : Exits C x) (hf : ∀ b, Exits C (f b)) :
    Exits C (x >>= f) := by
  refine ⟨fun s => ?_⟩
  rw [wp_bind]
  exact (hx.wp_true s).mono (fun b s' _ => (hf b).wp_true s') (fun _ _ he => he) fun _ hp => hp

lemma ite {c : Prop} [Decidable c] {x y : Prog ε π σ α} (hx : Exits C x) (hy : Exits C y) :
    Exits C (if c then x else y) := by
  split_ifs
  · exact hx
  · exact hy

/-- An exit that is caught is none. -/
lemma attempt (x : Prog ε π σ α) : Exits C (Prog.attempt x) := by
  refine ⟨fun s => ?_⟩
  rw [wp_attempt]
  exact (wp_self x s).mono (fun _ _ _ => trivial) (fun _ _ _ => trivial) fun _ _ => trivial

lemma forRange {body : ℕ → Prog ε π σ Unit} (hb : ∀ i, Exits C (body i)) (lo n : ℕ) :
    Exits C (Prog.forRange body lo n) :=
  ⟨fun _ => wp_forRange (fun _ _ => True) n lo trivial fun i s _ _ _ => (hb i).wp_true s⟩

end Exits

/-! ## Panics -/

/-- The program panics only with panics in `C`. -/
structure Stops (C : π → Prop) (x : Prog ε π σ α) : Prop where
  wp_true : ∀ s, wp x s (fun _ _ => True) (fun _ _ => True) C

namespace Stops

variable {C : π → Prop}

lemma pure (a : α) : Stops C (Pure.pure a : Prog ε π σ α) := ⟨fun _ => trivial⟩

lemma exit (e : ε) : Stops C (Prog.exit e : Prog ε π σ α) := ⟨fun _ => trivial⟩

lemma panic {p : π} (h : C p) : Stops C (Prog.panic p : Prog ε π σ α) := ⟨fun _ => h⟩

lemma get : Stops C (Prog.get : Prog ε π σ σ) := ⟨fun _ => trivial⟩

lemma set (s : σ) : Stops C (Prog.set s : Prog ε π σ Unit) := ⟨fun _ => trivial⟩

lemma modify (f : σ → σ) : Stops C (Prog.modify f : Prog ε π σ Unit) := ⟨fun _ => trivial⟩

lemma bind {x : Prog ε π σ β} {f : β → Prog ε π σ α} (hx : Stops C x) (hf : ∀ b, Stops C (f b)) :
    Stops C (x >>= f) := by
  refine ⟨fun s => ?_⟩
  rw [wp_bind]
  exact (hx.wp_true s).mono (fun b s' _ => (hf b).wp_true s') (fun _ _ he => he) fun _ hp => hp

lemma ite {c : Prop} [Decidable c] {x y : Prog ε π σ α} (hx : Stops C x) (hy : Stops C y) :
    Stops C (if c then x else y) := by
  split_ifs
  · exact hx
  · exact hy

lemma attempt {x : Prog ε π σ α} (hx : Stops C x) : Stops C (Prog.attempt x) := by
  refine ⟨fun s => ?_⟩
  rw [wp_attempt]
  exact hx.wp_true s

lemma forRange {body : ℕ → Prog ε π σ Unit} (hb : ∀ i, Stops C (body i)) (lo n : ℕ) :
    Stops C (Prog.forRange body lo n) :=
  ⟨fun _ => wp_forRange (fun _ _ => True) n lo trivial fun i s _ _ _ => (hb i).wp_true s⟩

/-- What a program does, and how it panics. -/
lemma wp_and {x : Prog ε π σ α} (hx : Stops C x) {s : σ} {Q : α → σ → Prop} {E : ε → σ → Prop}
    (h : wp x s Q E fun _ => True) : wp x s Q E C :=
  ((hx.wp_true s).and h).mono (fun _ _ h => h.2) (fun _ _ h => h.2) fun _ h => h.1

end Stops

/-! ## Invariants -/

/-- From a state in `I` the program ends in a state in `I`, also if it leaves early, or it panics in
`C`. -/
structure Maintains (I : σ → Prop) (C : π → Prop) (x : Prog ε π σ α) : Prop where
  wp_of : ∀ {s}, I s → wp x s (fun _ => I) (fun _ => I) C

namespace Maintains

variable {I : σ → Prop} {C : π → Prop}

lemma pure (a : α) : Maintains I C (Pure.pure a : Prog ε π σ α) := ⟨fun h => h⟩

lemma exit (e : ε) : Maintains I C (Prog.exit e : Prog ε π σ α) := ⟨fun h => h⟩

lemma panic {p : π} (h : C p) : Maintains I C (Prog.panic p : Prog ε π σ α) := ⟨fun _ => h⟩

lemma get : Maintains I C (Prog.get : Prog ε π σ σ) := ⟨fun h => h⟩

lemma modify {f : σ → σ} (hf : ∀ s, I s → I (f s)) :
    Maintains I C (Prog.modify f : Prog ε π σ Unit) := ⟨fun h => hf _ h⟩

lemma bind {x : Prog ε π σ β} {f : β → Prog ε π σ α} (hx : Maintains I C x)
    (hf : ∀ b, Maintains I C (f b)) : Maintains I C (x >>= f) := by
  refine ⟨fun h => ?_⟩
  rw [wp_bind]
  exact (hx.wp_of h).mono (fun b _ h' => (hf b).wp_of h') (fun _ _ h' => h') fun _ hp => hp

lemma ite {c : Prop} [Decidable c] {x y : Prog ε π σ α} (hx : Maintains I C x)
    (hy : Maintains I C y) : Maintains I C (if c then x else y) := by
  split_ifs
  · exact hx
  · exact hy

lemma attempt {x : Prog ε π σ α} (hx : Maintains I C x) : Maintains I C (Prog.attempt x) := by
  refine ⟨fun h => ?_⟩
  rw [wp_attempt]
  exact hx.wp_of h

lemma forRange {body : ℕ → Prog ε π σ Unit} (hb : ∀ i, Maintains I C (body i)) (lo n : ℕ) :
    Maintains I C (Prog.forRange body lo n) :=
  ⟨fun h => (wp_forRange (fun _ => I) n lo h fun i _ _ _ h' =>
    ((hb i).wp_of h').mono (fun _ _ h => h) (fun _ _ h => h) fun _ hp => hp)⟩

end Maintains

lemma forRange_zero (body : ℕ → Prog ε π σ Unit) (lo : ℕ) : forRange body lo 0 = pure () := rfl

lemma forRange_succ (body : ℕ → Prog ε π σ Unit) (lo n : ℕ) :
    forRange body lo (n + 1) = (do body lo; forRange body (lo + 1) n) := rfl

/-- Some round of a loop is reached, and leaves it with `e` in state `t`. -/
def LeavesAt (body : ℕ → Prog ε π σ Unit) (lo n : ℕ) (s : σ) (e : ε) (t : σ) : Prop :=
  ∃ k < n, ∃ s', forRange body lo k s = .ok () s' ∧ body (lo + k) s' = .exit e t

/-- A loop is left early in one of its rounds. -/
lemma leavesAt_iff {body : ℕ → Prog ε π σ Unit} {lo n : ℕ} {s : σ} {e : ε} {t : σ} :
    LeavesAt body lo n s e t ↔ forRange body lo n s = .exit e t := by
  induction n generalizing lo s with
  | zero =>
      refine ⟨fun ⟨k, hk, _⟩ => absurd hk (Nat.not_lt_zero k), fun h => ?_⟩
      cases h
  | succ n ih =>
      have hrun : ∀ k, forRange body lo (k + 1) s =
          bind (body lo) (fun _ => forRange body (lo + 1) k) s := fun _ => rfl
      cases hx : body lo s with
      | ok u s₁ =>
          have hnext : ∀ k, forRange body lo (k + 1) s = forRange body (lo + 1) k s₁ := by
            intro k
            rw [hrun, bind, hx]
          rw [hnext, ← ih]
          constructor
          · rintro ⟨k, hk, s', hok, hexit⟩
            cases k with
            | zero =>
                cases hok
                exact absurd (hx.symm.trans hexit) nofun
            | succ k =>
                refine ⟨k, by omega, s', hnext k ▸ hok, ?_⟩
                rwa [Nat.add_assoc, Nat.add_comm 1]
          · rintro ⟨k, hk, s', hok, hexit⟩
            refine ⟨k + 1, by omega, s', (hnext k).trans hok, ?_⟩
            rwa [Nat.add_assoc, Nat.add_comm 1] at hexit
      | exit e' t' =>
          have hnext : ∀ k, forRange body lo (k + 1) s = .exit e' t' := by
            intro k
            rw [hrun, bind, hx]
          rw [hnext]
          constructor
          · rintro ⟨k, hk, s', hok, hexit⟩
            cases k with
            | zero =>
                cases hok
                exact hx.symm.trans hexit
            | succ k => exact absurd ((hnext k).symm.trans hok) nofun
          · exact fun h => ⟨0, Nat.succ_pos n, s, rfl, hx.trans h⟩
      | panic p =>
          have hnext : ∀ k, forRange body lo (k + 1) s = .panic p := by
            intro k
            rw [hrun, bind, hx]
          rw [hnext]
          refine ⟨fun ⟨k, hk, s', hok, hexit⟩ => ?_, fun h => absurd h nofun⟩
          cases k with
          | zero =>
              cases hok
              exact absurd (hx.symm.trans hexit) nofun
          | succ k => exact absurd ((hnext k).symm.trans hok) nofun

-- Loops are only ever looked at through their rules.
attribute [irreducible] forRange

end Prog
