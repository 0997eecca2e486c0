import Mathlib.Tactic

/-!
# Circular buffers with wrapping positions

A buffer of `N` cells is filled at a write position and emptied at a read position.  Both are
`w`-bit counters that only ever count up and wrap; a position falls into the cell given by its
value modulo `N`.  As long as `N` divides `2 ^ w` the wrap of a position is invisible in the
cells, and as long as `N < 2 ^ w` the difference of the positions is the number of elements.

`Holds buf r t l` says that the buffer holds the list `l` between the positions `r` and `t`.  The
two operations are `Holds.push` and `Holds.pop`.
-/

namespace Ring

variable {w N : ℕ} [NeZero N] {α : Type}

/-- The cell that a position falls into. -/
def cell (N : ℕ) [NeZero N] (p : BitVec w) : Fin N := Fin.ofNat N p.toNat

/-- The buffer holds `l` from the position `r` up to the position `t`. -/
structure Holds (buf : Fin N → α) (r t : BitVec w) (l : List α) : Prop where
  length_le : l.length ≤ N
  end_eq : t = r + BitVec.ofNat w l.length
  get : ∀ j (h : j < l.length), buf (cell N (r + BitVec.ofNat w j)) = l[j]

lemma cell_val (p : BitVec w) : (cell N p).val = p.toNat % N := rfl

/-- The wrap of a position is invisible in the cells. -/
lemma cell_add (hd : N ∣ 2 ^ w) (r : BitVec w) (j : ℕ) :
    (cell N (r + BitVec.ofNat w j)).val = (r.toNat + j) % N := by
  rw [cell_val, BitVec.toNat_add, BitVec.toNat_ofNat, Nat.mod_mod_of_dvd _ hd, Nat.add_mod,
    Nat.mod_mod_of_dvd _ hd, ← Nat.add_mod]

/-- Positions less than `N` apart fall into different cells. -/
lemma cell_add_injective (hd : N ∣ 2 ^ w) {r : BitVec w} {i j : ℕ} (hi : i < N) (hj : j < N)
    (h : cell N (r + BitVec.ofNat w i) = cell N (r + BitVec.ofNat w j)) : i = j := by
  have hval := congrArg Fin.val h
  rw [cell_add hd, cell_add hd] at hval
  have hmod : i ≡ j [MOD N] := Nat.ModEq.add_left_cancel' _ hval
  exact Nat.ModEq.eq_of_lt_of_lt hmod hi hj

namespace Holds

variable {buf : Fin N → α} {r t : BitVec w} {l : List α} {a : α}

lemma empty (buf : Fin N → α) (r : BitVec w) : Holds buf r r [] where
  length_le := Nat.zero_le N
  end_eq := by simp
  get j h := absurd h (Nat.not_lt_zero j)

/-- The difference of the positions is the number of elements. -/
lemma toNat_sub (h : Holds buf r t l) (hlt : N < 2 ^ w) : (t - r).toNat = l.length := by
  have hlen := h.length_le
  rw [h.end_eq, BitVec.add_comm, BitVec.add_sub_cancel, BitVec.toNat_ofNat,
    Nat.mod_eq_of_lt (by omega)]

/-- Storing an element at the write position of a buffer that is not full. -/
lemma push (h : Holds buf r t l) (hd : N ∣ 2 ^ w) (hroom : l.length < N) (a : α) :
    Holds (Function.update buf (cell N t) a) r (t + 1) (l ++ [a]) where
  length_le := by
    rw [List.length_append, List.length_singleton]
    exact hroom
  end_eq := by
    rw [h.end_eq, List.length_append, List.length_singleton, BitVec.ofNat_add, BitVec.add_assoc]
    rfl
  get j hj := by
    rw [List.length_append, List.length_singleton] at hj
    rw [h.end_eq]
    by_cases hlast : j = l.length
    · subst hlast
      rw [Function.update_self, List.getElem_concat_length rfl]
    · have hj' : j < l.length := by omega
      have hcell : cell N (r + BitVec.ofNat w j) ≠ cell N (r + BitVec.ofNat w l.length) := by
        intro heq
        exact hlast (cell_add_injective hd (by omega) hroom heq)
      rw [Function.update_of_ne hcell, h.get j hj', List.getElem_append_left hj']

/-- Taking the element at the read position. -/
lemma pop (h : Holds buf r t (a :: l)) : buf (cell N r) = a ∧ Holds buf (r + 1) t l := by
  refine ⟨?_, ?_, ?_, ?_⟩
  · have h₀ := h.get 0 (by simp)
    rwa [show BitVec.ofNat w 0 = 0#w from rfl, BitVec.add_zero] at h₀
  · have hlen := h.length_le
    rw [List.length_cons] at hlen
    omega
  · rw [h.end_eq, List.length_cons, Nat.add_comm, BitVec.ofNat_add, ← BitVec.add_assoc]
    rfl
  · intro j hj
    have hstep : r + 1 + BitVec.ofNat w j = r + BitVec.ofNat w (j + 1) := by
      rw [Nat.add_comm j, BitVec.ofNat_add, ← BitVec.add_assoc]
      rfl
    rw [hstep, h.get (j + 1) (by simpa using hj), List.getElem_cons_succ]

/-- Between different positions there is an element. -/
lemma ne_nil (h : Holds buf r t l) (hne : r ≠ t) : l ≠ [] := by
  rintro rfl
  exact hne (by simpa using h.end_eq.symm)

end Holds

end Ring
