import MosRv.Lib.Bits

/-!
# Bytes stored in memory

A loop that stores through a pointer it counts up stores a list of bytes from some address on.
`storeBytes` is what such a loop comes to.  Its lemmas speak about an address `x` through its
distance `(x - a).toNat` from the start `a`: the list has its bytes at the distances below its
length (`get_storeBytes_add`), and everything at another distance is as it was
(`get_storeBytes_of_le`).  A memory also keeps the addresses that were stored to.
-/

/-- A memory of bytes, and the addresses stored to. -/
structure ByteMem (w : ℕ) where
  get : BitVec w → BitVec 8
  stored : List (BitVec w)

namespace ByteMem

variable {w : ℕ} (m : ByteMem w) (a : BitVec w) {x : BitVec w} {bs : List (BitVec 8)}

/-- Stores one byte. -/
def store (b : BitVec 8) : ByteMem w := ⟨Function.update m.get a b, a :: m.stored⟩

lemma get_store_self (b : BitVec 8) : (m.store a b).get a = b := Function.update_self ..

lemma get_store_of_ne (hx : x ≠ a) (b : BitVec 8) : (m.store a b).get x = m.get x :=
  Function.update_of_ne hx ..

/-- Stores the bytes of a list from `a` on. -/
def storeBytes : ByteMem w → BitVec w → List (BitVec 8) → ByteMem w
  | m, _, [] => m
  | m, a, b :: bs => storeBytes (m.store a b) (a + 1#w) bs

/-- The bytes of a word in memory, the lowest first. -/
def wordBytes (x : BitVec 32) : List (BitVec 8) :=
  [Bits.byte x 0, Bits.byte x 1, Bits.byte x 2, Bits.byte x 3]

/-- Stores a word of four bytes. -/
def storeWord (x : BitVec 32) : ByteMem w := m.storeBytes a (wordBytes x)

@[simp] lemma length_wordBytes (x : BitVec 32) : (wordBytes x).length = 4 := rfl

lemma getElem_wordBytes (x : BitVec 32) {i : ℕ} (hi : i < 4) :
    (wordBytes x)[i] = Bits.byte x i := by
  obtain rfl | rfl | rfl | rfl : i = 0 ∨ i = 1 ∨ i = 2 ∨ i = 3 := by omega
  all_goals rfl

lemma storeBytes_append (bs cs : List (BitVec 8)) :
    m.storeBytes a (bs ++ cs) =
      (m.storeBytes a bs).storeBytes (a + BitVec.ofNat w bs.length) cs := by
  induction bs generalizing m a with
  | nil => simp [storeBytes]
  | cons b bs ih =>
    have hnext : a + 1#w + BitVec.ofNat w bs.length = a + BitVec.ofNat w (b :: bs).length := by
      rw [List.length_cons, Nat.add_comm, BitVec.ofNat_add, BitVec.add_assoc]
    rw [List.cons_append, storeBytes, storeBytes, ih, hnext]

/-- An address other than the first is one step nearer to the second. -/
lemma toNat_sub_next (hx : x ≠ a) : (x - a).toNat = (x - (a + 1#w)).toNat + 1 := by
  have hpos : (x - a).toNat ≠ 0 := fun h => hx (by
    rw [← BitVec.sub_add_cancel x a, BitVec.eq_of_toNat_eq (h.trans BitVec.toNat_zero.symm),
      BitVec.zero_add])
  have hlt := (x - a).isLt
  have hone : (1#w).toNat = 1 := by
    rw [BitVec.toNat_ofNat]
    exact Nat.mod_eq_of_lt (by omega)
  have hle : 1#w ≤ x - a := by
    rw [BitVec.le_def, hone]
    omega
  rw [← BitVec.sub_sub, BitVec.toNat_sub_of_le hle, hone]
  omega

lemma get_storeBytes (hlen : bs.length ≤ 2 ^ w) :
    (m.storeBytes a bs).get x = (bs[(x - a).toNat]?).getD (m.get x) := by
  induction bs generalizing m a with
  | nil => rfl
  | cons b bs ih =>
    rw [List.length_cons] at hlen
    rw [storeBytes, ih _ _ (by omega)]
    by_cases hx : x = a
    · subst hx
      -- the list ends before it comes round to its start
      have hfar : bs.length ≤ (x - (x + 1#w)).toNat := by
        rw [← BitVec.sub_sub, BitVec.sub_self, BitVec.zero_sub, BitVec.toNat_neg]
        have := Nat.mod_le 1 (2 ^ w)
        rw [BitVec.toNat_ofNat]
        rcases Nat.eq_zero_or_pos bs.length with h | h
        · omega
        · rw [Nat.mod_eq_of_lt (a := 1) (by omega), Nat.mod_eq_of_lt (by omega)]
          omega
      rw [List.getElem?_eq_none hfar, BitVec.sub_self, BitVec.toNat_zero, List.getElem?_cons_zero,
        get_store_self]
      rfl
    · rw [toNat_sub_next a hx, List.getElem?_cons_succ, get_store_of_ne m a hx]

lemma get_storeBytes_add (hlen : bs.length ≤ 2 ^ w) {i : ℕ} (hi : i < bs.length) :
    (m.storeBytes a bs).get (a + BitVec.ofNat w i) = bs[i] := by
  have hdist : (a + BitVec.ofNat w i - a).toNat = i := by
    rw [BitVec.add_comm, BitVec.add_sub_cancel, BitVec.toNat_ofNat]
    exact Nat.mod_eq_of_lt (by omega)
  rw [get_storeBytes m a hlen, hdist, List.getElem?_eq_getElem hi, Option.getD_some]

lemma get_storeBytes_of_le (hlen : bs.length ≤ 2 ^ w) (hx : bs.length ≤ (x - a).toNat) :
    (m.storeBytes a bs).get x = m.get x := by
  rw [get_storeBytes m a hlen, List.getElem?_eq_none hx, Option.getD_none]

lemma mem_stored_storeBytes (hlen : bs.length ≤ 2 ^ w)
    (hx : x ∈ (m.storeBytes a bs).stored) : (x - a).toNat < bs.length ∨ x ∈ m.stored := by
  induction bs generalizing m a with
  | nil => exact .inr hx
  | cons b bs ih =>
    rw [List.length_cons] at hlen ⊢
    by_cases hxa : x = a
    · subst hxa
      rw [BitVec.sub_self, BitVec.toNat_zero]
      exact .inl (Nat.succ_pos _)
    · obtain h | h := ih _ _ (by omega) hx
      · rw [toNat_sub_next a hxa]
        exact .inl (by omega)
      · exact .inr ((List.mem_cons.mp h).resolve_left hxa)

/-- The bytes in the middle of a list. -/
lemma get_storeBytes_mid (before mid after : List (BitVec 8))
    (hlen : (before ++ mid ++ after).length ≤ 2 ^ w) {j : ℕ} (hj : j < mid.length) :
    (m.storeBytes a (before ++ mid ++ after)).get
      (a + BitVec.ofNat w before.length + BitVec.ofNat w j) = mid[j] := by
  have hin : before.length + j < (before ++ mid ++ after).length := by
    simp only [List.length_append]
    omega
  rw [BitVec.add_assoc, ← BitVec.ofNat_add, get_storeBytes_add m a hlen hin]
  simp [hj]

/-! ## Words -/

/-- A word stands at `a`. -/
def WordAt (x : BitVec 32) : Prop := ∀ i < 4, m.get (a + BitVec.ofNat w i) = Bits.byte x i

variable {m a} {v : BitVec 32}

/-- An address outside the bytes that are stored. -/
lemma le_toNat_sub {n : ℕ} (hwrap : a.toNat + n ≤ 2 ^ w)
    (hout : x.toNat < a.toNat ∨ a.toNat + n ≤ x.toNat) : n ≤ (x - a).toNat := by
  have ha := a.isLt
  have hx := x.isLt
  rw [BitVec.toNat_sub]
  rcases hout with h | h
  · rw [Nat.mod_eq_of_lt (by omega)]
    omega
  · rw [show 2 ^ w - a.toNat + x.toNat = x.toNat - a.toNat + 2 ^ w by omega, Nat.add_mod_right,
      Nat.mod_eq_of_lt (by omega)]
    omega

lemma wordAt_storeWord (hw : 4 ≤ 2 ^ w) : (m.storeWord a v).WordAt a v := fun _ hi =>
  (@get_storeBytes_add w m a (wordBytes v) hw _ hi).trans (getElem_wordBytes v hi)

/-- A word stays if the bytes are stored elsewhere. -/
lemma WordAt.storeBytes {b : BitVec w} (h : m.WordAt a v) (hlen : bs.length ≤ 2 ^ w)
    (hfar : ∀ i < 4, bs.length ≤ (a + BitVec.ofNat w i - b).toNat) :
    (m.storeBytes b bs).WordAt a v := fun i hi =>
  (get_storeBytes_of_le m b hlen (hfar i hi)).trans (h i hi)

lemma WordAt.storeWord {b : BitVec w} {y : BitVec 32} (h : m.WordAt a v)
    (hwrap : b.toNat + 4 ≤ 2 ^ w)
    (hfar : ∀ i < 4, (a + BitVec.ofNat w i).toNat < b.toNat ∨
      b.toNat + 4 ≤ (a + BitVec.ofNat w i).toNat) : (m.storeWord b y).WordAt a v :=
  h.storeBytes (show 4 ≤ 2 ^ w by omega) fun i hi => le_toNat_sub hwrap (hfar i hi)

lemma length_flatMap_wordBytes (vs : List (BitVec 32)) :
    (vs.flatMap wordBytes).length = 4 * vs.length := by
  simp [List.length_flatMap, Nat.mul_comm]

/-- An array of words. -/
lemma wordAt_array (vs : List (BitVec 32)) (hlen : 4 * vs.length ≤ 2 ^ w) {i : ℕ}
    (hi : i < vs.length) :
    (m.storeBytes a (vs.flatMap wordBytes)).WordAt (a + BitVec.ofNat w (4 * i)) vs[i] := by
  intro j hj
  have hsplit : vs.flatMap wordBytes = (vs.take i).flatMap wordBytes ++ wordBytes vs[i] ++
      (vs.drop (i + 1)).flatMap wordBytes := by
    rw [List.append_assoc, ← List.flatMap_cons, ← List.flatMap_append, List.getElem_cons_drop,
      List.take_append_drop]
  have hpos : 4 * i = ((vs.take i).flatMap wordBytes).length := by
    rw [length_flatMap_wordBytes, List.length_take, Nat.min_eq_left hi.le]
  rw [← length_flatMap_wordBytes, hsplit] at hlen
  rw [hsplit, hpos, get_storeBytes_mid m a _ _ _ hlen (by exact hj), getElem_wordBytes _ hj]

end ByteMem
