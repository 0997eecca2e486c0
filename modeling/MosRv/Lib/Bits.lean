import Mathlib.Tactic

/-!
# Bit fields of machine words

A packed word keeps a number in its upper bits and flags in its lower ones.  The lemmas here read
and write such fields: clearing low bits rounds down (`toNat_and_not_low`), a flag is one bit
(`and_twoPow_ne_zero`), and OR-ing into a word leaves the field above bit `n` alone exactly when
every bit added there was set already (`ushiftRight_or_eq_iff`).  `byte` and `setByte` are the
four bytes of a little-endian 32-bit word.
-/

namespace Bits

variable {w : ℕ}

/-- `m` is the mask of the `n` lowest bits. -/
def IsLowMask (n : ℕ) (m : BitVec w) : Prop := ∀ i, i < w → m.getLsbD i = decide (i < n)

lemma and_not_low {n : ℕ} {m : BitVec w} (hm : IsLowMask n m) (x : BitVec w) :
    x &&& ~~~m = (x >>> n) <<< n := by
  apply BitVec.eq_of_getLsbD_eq
  intro i hi
  rw [BitVec.getLsbD_and, BitVec.getLsbD_not, BitVec.getLsbD_shiftLeft,
    BitVec.getLsbD_ushiftRight, hm i hi]
  by_cases h : i < n
  · simp [h]
  · simp [h, hi, show n + (i - n) = i by omega]

/-- Clearing the `n` lowest bits rounds down to a multiple of `2 ^ n`. -/
lemma toNat_and_not_low {n : ℕ} {m : BitVec w} (hm : IsLowMask n m) (x : BitVec w) :
    (x &&& ~~~m).toNat = x.toNat / 2 ^ n * 2 ^ n := by
  rw [and_not_low hm, BitVec.toNat_shiftLeft, BitVec.toNat_ushiftRight,
    Nat.shiftRight_eq_div_pow, Nat.shiftLeft_eq]
  exact Nat.mod_eq_of_lt ((Nat.div_mul_le_self _ _).trans_lt x.isLt)

lemma ushiftRight_and_not_low {n : ℕ} {m : BitVec w} (hm : IsLowMask n m) (x : BitVec w) :
    (x &&& ~~~m) >>> n = x >>> n := by
  apply BitVec.eq_of_getLsbD_eq
  intro i hi
  rw [BitVec.getLsbD_ushiftRight, BitVec.getLsbD_ushiftRight, BitVec.getLsbD_and,
    BitVec.getLsbD_not]
  by_cases h : n + i < w
  · rw [hm _ h]
    simp [h]
  · simp [BitVec.getLsbD_of_ge x (n + i) (by omega)]

/-- A mask of one bit tests that bit. -/
lemma and_twoPow_ne_zero (x : BitVec w) {i : ℕ} (hi : i < w) :
    x &&& BitVec.twoPow w i ≠ 0#w ↔ x.getLsbD i = true := by
  rw [BitVec.and_twoPow]
  cases h : x.getLsbD i
  · simp
  · simp only [if_true, ne_eq, iff_true]
    intro hz
    have := congrArg (fun y => y.getLsbD i) hz
    simp [hi] at this

/-- **OR keeps a field exactly when it adds no new bit to it.** -/
lemma ushiftRight_or_eq_iff (x y : BitVec w) (n : ℕ) :
    (x ||| y) >>> n = x >>> n ↔ (y >>> n) &&& ~~~(x >>> n) = 0#w := by
  constructor
  · intro h
    apply BitVec.eq_of_getLsbD_eq
    intro i hi
    have hbit := congrArg (fun z => z.getLsbD i) h
    simp only [BitVec.getLsbD_ushiftRight, BitVec.getLsbD_or] at hbit
    simp only [BitVec.getLsbD_and, BitVec.getLsbD_not, BitVec.getLsbD_ushiftRight,
      BitVec.getLsbD_zero]
    cases hx : x.getLsbD (n + i) <;> cases hy : y.getLsbD (n + i) <;> simp_all
  · intro h
    apply BitVec.eq_of_getLsbD_eq
    intro i hi
    have hbit := congrArg (fun z => z.getLsbD i) h
    simp only [BitVec.getLsbD_and, BitVec.getLsbD_not, BitVec.getLsbD_ushiftRight,
      BitVec.getLsbD_zero] at hbit
    simp only [BitVec.getLsbD_ushiftRight, BitVec.getLsbD_or]
    cases hx : x.getLsbD (n + i) <;> cases hy : y.getLsbD (n + i) <;> simp_all

/-- Byte `k` of a word. -/
def byte (x : BitVec 32) (k : ℕ) : BitVec 8 := x.extractLsb' (8 * k) 8

/-- The word with byte `k` replaced. -/
def setByte (x : BitVec 32) (k : ℕ) (b : BitVec 8) : BitVec 32 :=
  (x &&& ~~~(0xFF#32 <<< (8 * k))) ||| (b.setWidth 32 <<< (8 * k))

lemma byte_setByte (x : BitVec 32) {k j : ℕ} (b : BitVec 8) (hk : k < 4) (hj : j < 4) :
    byte (setByte x k b) j = if j = k then b else byte x j := by
  have hmask : ∀ i, i < 32 → (0xFF#32).getLsbD i = decide (i < 8) := by decide
  rw [setByte]
  generalize 0xFF#32 = m at hmask
  apply BitVec.eq_of_getLsbD_eq
  intro i hi
  have hlt : 8 * j + i < 32 := by omega
  rw [byte, BitVec.getLsbD_extractLsb', BitVec.getLsbD_or, BitVec.getLsbD_and,
    BitVec.getLsbD_not, BitVec.getLsbD_shiftLeft, BitVec.getLsbD_shiftLeft]
  split_ifs with h
  · subst h
    have hi' : 8 * j + i - 8 * j = i := by omega
    rw [hi', hmask i (by omega), BitVec.getLsbD_setWidth]
    simp [hi, hlt, show i < 32 by omega]
  · rw [byte, BitVec.getLsbD_extractLsb']
    by_cases hlow : 8 * j + i < 8 * k
    · simp [hi, hlt, hlow]
    · rw [hmask _ (by omega), BitVec.getLsbD_setWidth,
        BitVec.getLsbD_of_ge b (8 * j + i - 8 * k) (by omega)]
      simp [hi, hlt, show ¬ 8 * j + i - 8 * k < 8 by omega]

lemma bytes_append (x : BitVec 32) : byte x 3 ++ byte x 2 ++ byte x 1 ++ byte x 0 = x := by
  ext i hi
  simp only [BitVec.getElem_append, byte, BitVec.getElem_extractLsb']
  split_ifs <;> first
    | (rw [BitVec.getLsbD_eq_getElem (by omega)]; congr 1; omega)

lemma byte_append {b₀ b₁ b₂ b₃ : BitVec 8} {i : ℕ} (hi : i < 4) :
    byte (b₃ ++ b₂ ++ b₁ ++ b₀) i =
      if i = 0 then b₀ else if i = 1 then b₁ else if i = 2 then b₂ else b₃ := by
  apply BitVec.eq_of_getLsbD_eq
  intro j hj
  simp only [byte, BitVec.getLsbD_extractLsb', BitVec.getLsbD_append, hj, decide_true,
    Bool.true_and]
  obtain rfl | rfl | rfl | rfl : i = 0 ∨ i = 1 ∨ i = 2 ∨ i = 3 := by omega
  · simp [hj]
  · simp [hj]
  · simp [show ¬ 16 + j < 8 by omega, hj, show 16 + j - 8 = 8 + j by omega]
  · simp [show ¬ 24 + j < 8 by omega, show ¬ 16 + j < 8 by omega, show 24 + j - 8 = 16 + j by omega,
      show 16 + j - 8 = 8 + j by omega]

end Bits
