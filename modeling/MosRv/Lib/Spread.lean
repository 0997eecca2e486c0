import Mathlib.Tactic

/-!
# Numbers from a counter

A counter that only goes up hands out numbers to holders; 0 stands for no number.  `Spread num S a
b` says that the holders in `S` have the numbers from `a` up to `b`, each number at most once.

What was handed out while the counter went from `a` to `b`, and what was handed out after that, can
be put together (`Spread.append`): a program that hands out numbers in one part after the other
keeps what it hands out apart, without a look at what was there before.
-/

variable {ι : Type} {num : ι → ℕ} {S T : Set ι} {a b c : ℕ}

structure Spread (num : ι → ℕ) (S : Set ι) (a b : ℕ) : Prop where
  le : a ≤ b
  range : ∀ x ∈ S, num x ≠ 0 → a ≤ num x ∧ num x < b
  inj : ∀ x ∈ S, ∀ y ∈ S, num x ≠ 0 → num x = num y → x = y

namespace Spread

/-- Nothing is handed out. -/
lemma none (h : ∀ x ∈ S, num x = 0) : Spread num S a a where
  le := le_rfl
  range x hx hne := absurd (h x hx) hne
  inj x hx _ _ hne _ := absurd (h x hx) hne

/-- One number is handed out. -/
lemma single {x : ι} (h : num x = a) : Spread num {x} a (a + 1) where
  le := Nat.le_succ a
  range y hy _ := by
    rw [Set.mem_singleton_iff.mp hy, h]
    exact ⟨le_rfl, Nat.lt_succ_self a⟩
  inj y hy z hz _ _ := (Set.mem_singleton_iff.mp hy).trans (Set.mem_singleton_iff.mp hz).symm

lemma subset (h : Spread num S a b) (hsub : T ⊆ S) : Spread num T a b where
  le := h.le
  range x hx := h.range x (hsub hx)
  inj x hx y hy := h.inj x (hsub hx) y (hsub hy)

/-- **One part after the other.** -/
lemma append (hS : Spread num S a b) (hT : Spread num T b c) : Spread num (S ∪ T) a c where
  le := hS.le.trans hT.le
  range x hx hne := by
    rcases hx with hx | hx
    · exact ⟨(hS.range x hx hne).1, (hS.range x hx hne).2.trans_le hT.le⟩
    · exact ⟨hS.le.trans (hT.range x hx hne).1, (hT.range x hx hne).2⟩
  inj x hx y hy hne heq := by
    have hne' : num y ≠ 0 := heq ▸ hne
    rcases hx with hx | hx <;> rcases hy with hy | hy
    · exact hS.inj x hx y hy hne heq
    · have := (hS.range x hx hne).2
      have := (hT.range y hy hne').1
      omega
    · have := (hT.range x hx hne).1
      have := (hS.range y hy hne').2
      omega
    · exact hT.inj x hx y hy hne heq

end Spread
