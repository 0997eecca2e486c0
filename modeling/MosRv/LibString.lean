import MosRv.Lib.ByteMem
import MosRv.Lib.ProgLoop
import MosRv.Mmu

/-!
# Copying and filling memory (`lib/string.c`)

`memcpy` copies words where it can: if source and destination have the same alignment, it copies
bytes up to the first aligned address, then words, then the bytes that are left.  `memset` fills
memory in the same way.

A word is read as a whole before it is written, where a loop over the bytes would have written three
bytes by the time it reads the fourth.  That makes no difference, however the two regions overlap:
the loops copy words only between aligned addresses, and a byte at offset `i` of an aligned word is
not at the address of one at offset `j` (`copyWord_eq`).

The loops run on words of 32 bits and would not end if `dst + 4` wrapped around.
-/

namespace MosRv

open Prog

/-- A string of C, without the byte 0 at its end. -/
structure CStr where
  bytes : List (BitVec 8)
  noNul : 0#8 ∉ bytes

/-- The byte of a character. -/
def ch (c : Char) : BitVec 8 := BitVec.ofNat 8 c.toNat

/-- The functions work on a memory of bytes. -/
abbrev StrM := Prog Empty OutOfFuel (ByteMem 32)

/-! ## The functions -/

/-- `*(char *)dst = *(char *)src`. -/
def copyByte (dst src : Word) : StrM Unit :=
  modify fun m => m.store dst (m.get src)

/-- The word at `src`. -/
def loadWordAt (m : ByteMem 32) (src : Word) : Word :=
  m.get (src + 3#32) ++ m.get (src + 2#32) ++ m.get (src + 1#32) ++ m.get src

/-- `*(u_int *)dst = *(u_int *)src`. -/
def copyWord (dst src : Word) : StrM Unit :=
  modify fun m => m.storeWord dst (loadWordAt m src)

/-- `while (dst < max) { *(char *)dst++ = *(char *)src++; }`, under a further condition on `dst`. -/
def copyBytes (fuel : ℕ) (max : Word) (c : Word → Prop) [DecidablePred c] :
    Word × Word → StrM (Word × Word) :=
  whileDo .outOfFuel (fun p => c p.1 ∧ p.1 < max)
    (fun (dst, src) => do
      copyByte dst src
      pure (dst + 1#32, src + 1#32)) fuel

/-- `while (dst + 4 <= max) { *(u_int *)dst = *(u_int *)src; dst += 4; src += 4; }`. -/
def copyWords (fuel : ℕ) (max : Word) : Word × Word → StrM (Word × Word) :=
  whileDo .outOfFuel (fun p => p.1 + 4#32 ≤ max)
    (fun (dst, src) => do
      copyWord dst src
      pure (dst + 4#32, src + 4#32)) fuel

def memcpy (fuel : ℕ) (dst src n : Word) : StrM Word := do
  let dstaddr := dst
  let max := dst + n
  if src &&& 3#32 ≠ dst &&& 3#32 then do
    let _ ← copyBytes fuel max (fun _ => True) (dst, src)
    pure dstaddr
  else do
    let p ← copyBytes fuel max (fun dst => dst &&& 3#32 ≠ 0#32) (dst, src)
    -- copy machine words while possible
    let p ← copyWords fuel max p
    -- finish the remaining 0-3 bytes
    let _ ← copyBytes fuel max (fun _ => True) p
    pure dstaddr

/-- `while (dst < max) { *(u_char *)dst++ = byte; }`, under a further condition on `dst`. -/
def fillBytes (fuel : ℕ) (max : Word) (byte : BitVec 8) (c : Word → Prop) [DecidablePred c] :
    Word → StrM Word :=
  whileDo .outOfFuel (fun dst => c dst ∧ dst < max)
    (fun dst => do
      modify fun m => m.store dst byte
      pure (dst + 1#32)) fuel

/-- `while (dst + 4 <= max) { *(u_int *)dst = word; dst += 4; }`. -/
def fillWords (fuel : ℕ) (max word : Word) : Word → StrM Word :=
  whileDo .outOfFuel (fun dst => dst + 4#32 ≤ max)
    (fun dst => do
      modify fun m => m.storeWord dst word
      pure (dst + 4#32)) fuel

/-- `byte | byte << 8 | byte << 16 | byte << 24`. -/
def broadcast (byte : BitVec 8) : Word :=
  let b := byte.setWidth 32
  b ||| b <<< 8 ||| b <<< 16 ||| b <<< 24

def memset (fuel : ℕ) (dst c n : Word) : StrM Word := do
  let dstaddr := dst
  let max := dst + n
  let byte := (c &&& 0xFF#32).setWidth 8
  let word := broadcast byte
  let dst ← fillBytes fuel max byte (fun dst => dst &&& 3#32 ≠ 0#32) dst
  -- fill machine words while possible
  let dst ← fillWords fuel max word dst
  -- finish the remaining 0-3 bytes
  let _ ← fillBytes fuel max byte (fun _ => True) dst
  pure dstaddr

/-! ## Byte by byte -/

/-- Copies the bytes `0`, …, `n - 1`, one after the other. -/
def copyUp (m : ByteMem 32) (dst src : Word) : ℕ → ByteMem 32
  | 0 => m
  | n + 1 => (copyUp m dst src n).store (dst + BitVec.ofNat 32 n)
      ((copyUp m dst src n).get (src + BitVec.ofNat 32 n))

/-- Stores the byte at `dst`, …, `dst + n - 1`. -/
def fillUp (m : ByteMem 32) (dst : Word) (byte : BitVec 8) (n : ℕ) : ByteMem 32 :=
  m.storeBytes dst (List.replicate n byte)

section

variable {m : ByteMem 32} {dst src a x : Word} {n k : ℕ} {byte : BitVec 8}

lemma add_ofNat_add (a : Word) (k i : ℕ) :
    a + BitVec.ofNat 32 k + BitVec.ofNat 32 i = a + BitVec.ofNat 32 (k + i) := by
  rw [BitVec.add_assoc, ← BitVec.ofNat_add]

/-- Addresses up to the end of the region do not wrap around. -/
lemma toNat_add_ofNat (h : dst.toNat + n < 2 ^ 32) (hk : k ≤ n) :
    (dst + BitVec.ofNat 32 k).toNat = dst.toNat + k := by
  rw [BitVec.toNat_add, BitVec.toNat_ofNat]
  omega

lemma and_three (a : Word) : (a &&& 3#32).toNat = a.toNat % 4 := by
  rw [BitVec.toNat_and]
  exact Nat.and_two_pow_sub_one_eq_mod a.toNat 2

lemma storeBytes_concat (m : ByteMem 32) (a : Word) (bs : List (BitVec 8)) (b : BitVec 8) :
    m.storeBytes a (bs ++ [b]) = (m.storeBytes a bs).store (a + BitVec.ofNat 32 bs.length) b := by
  rw [ByteMem.storeBytes_append]
  rfl

lemma copyUp_add (n k : ℕ) : copyUp m dst src (n + k) =
    copyUp (copyUp m dst src n) (dst + BitVec.ofNat 32 n) (src + BitVec.ofNat 32 n) k := by
  induction k with
  | zero => rfl
  | succ k ih => rw [← Nat.add_assoc, copyUp, copyUp, ih, add_ofNat_add, add_ofNat_add]

lemma get_copyUp_of_ne (h : ∀ i < n, x ≠ dst + BitVec.ofNat 32 i) :
    (copyUp m dst src n).get x = m.get x := by
  induction n with
  | zero => rfl
  | succ n ih =>
      rw [copyUp, ByteMem.get_store_of_ne _ _ (h n (Nat.lt_succ_self n))]
      exact ih fun i hi => h i (Nat.lt_succ_of_lt hi)

/-- If no byte is overwritten before it is read, the bytes are those of the memory at first. -/
lemma copyUp_eq_storeBytes (h : ∀ i j, i < j → j < n →
    src + BitVec.ofNat 32 j ≠ dst + BitVec.ofNat 32 i) :
    copyUp m dst src n =
      m.storeBytes dst ((List.range n).map fun i => m.get (src + BitVec.ofNat 32 i)) := by
  induction n with
  | zero => rfl
  | succ n ih =>
      have hread : (copyUp m dst src n).get (src + BitVec.ofNat 32 n) =
          m.get (src + BitVec.ofNat 32 n) :=
        get_copyUp_of_ne fun i hi => h i n hi (Nat.lt_succ_self n)
      rw [copyUp, hread, ih fun i j hij hj => h i j hij (Nat.lt_succ_of_lt hj), List.range_succ,
        List.map_append, List.map_singleton, storeBytes_concat, List.length_map, List.length_range]

lemma byte_loadWordAt (m : ByteMem 32) (src : Word) {i : ℕ} (hi : i < 4) :
    Bits.byte (loadWordAt m src) i = m.get (src + BitVec.ofNat 32 i) := by
  unfold loadWordAt
  rw [Bits.byte_append hi]
  obtain rfl | rfl | rfl | rfl : i = 0 ∨ i = 1 ∨ i = 2 ∨ i = 3 := by omega
  all_goals simp

/-- The four bytes of a word are copied at once as they are one by one. -/
lemma copyWord_eq (hd : dst.toNat % 4 = 0) (hs : src.toNat % 4 = 0) :
    m.storeWord dst (loadWordAt m src) = copyUp m dst src 4 := by
  have hbyte : ∀ i < 4, Bits.byte (loadWordAt m src) i = m.get (src + BitVec.ofNat 32 i) :=
    fun i hi => byte_loadWordAt m src hi
  -- a byte that is written is at another place of its word than one that is still to be read
  have hne : ∀ i j, i < j → j < 4 → src + BitVec.ofNat 32 j ≠ dst + BitVec.ofNat 32 i := by
    intro i j hij hj heq
    have hnat := congrArg BitVec.toNat heq
    rw [BitVec.toNat_add, BitVec.toNat_add, BitVec.toNat_ofNat, BitVec.toNat_ofNat] at hnat
    omega
  rw [copyUp_eq_storeBytes hne]
  unfold ByteMem.storeWord ByteMem.wordBytes
  rw [hbyte 0 (by decide), hbyte 1 (by decide), hbyte 2 (by decide), hbyte 3 (by decide)]
  rfl

/-- A word of four equal bytes. -/
lemma broadcast_eq (byte : BitVec 8) : broadcast byte = byte ++ byte ++ byte ++ byte := by
  unfold broadcast
  ext i hi
  simp only [BitVec.getElem_or, BitVec.getElem_shiftLeft, BitVec.getElem_setWidth]
  grind

lemma wordBytes_broadcast (byte : BitVec 8) :
    ByteMem.wordBytes (broadcast byte) = List.replicate 4 byte := by
  have hbyte : ∀ i < 4, Bits.byte (broadcast byte) i = byte := by
    intro i hi
    rw [broadcast_eq, Bits.byte_append hi]
    split_ifs <;> rfl
  unfold ByteMem.wordBytes
  rw [hbyte 0 (by decide), hbyte 1 (by decide), hbyte 2 (by decide), hbyte 3 (by decide)]
  rfl

/-! ## The loops -/

variable {m' : ByteMem 32} {fuel : ℕ} {E : Empty → ByteMem 32 → Prop} {P : OutOfFuel → Prop}

/-- The end of the region is ahead as long as there are bytes left. -/
lemma lt_max_iff (h : dst.toNat + n < 2 ^ 32) (hk : k ≤ n) :
    dst + BitVec.ofNat 32 k < dst + BitVec.ofNat 32 n ↔ k < n := by
  rw [BitVec.lt_def, toNat_add_ofNat h hk, toNat_add_ofNat h le_rfl]
  omega

/-- There is room for a word as long as four bytes are left. -/
lemma add_four_le_max_iff (h : dst.toNat + n + 4 < 2 ^ 32) (hk : k ≤ n) :
    dst + BitVec.ofNat 32 k + 4#32 ≤ dst + BitVec.ofNat 32 n ↔ k + 4 ≤ n := by
  rw [add_ofNat_add, BitVec.le_def, @toNat_add_ofNat dst (n + 4) (k + 4) h (by omega),
    @toNat_add_ofNat dst (n + 4) n h (by omega)]
  omega

/-- A loop through a region, whose pointer goes on with every round. -/
lemma wp_region {α : Type} {R : ℕ → α → ByteMem 32 → Prop} {c : α → Prop} [DecidablePred c]
    {body : α → StrM α} (ptr : α → Word) (h : dst.toNat + n < 2 ^ 32)
    (hR : ∀ k a m, R k a m → k ≤ n ∧ ptr a = dst + BitVec.ofNat 32 k)
    (hstep : ∀ k a m, R k a m → c a → wp (body a) m (fun a' m' => ∃ k', k < k' ∧ R k' a' m') E P)
    {a : α} (h0 : R k a m) (hfuel : n < fuel) :
    wp (whileDo .outOfFuel c body fuel a) m (fun a' m' => ∃ k', R k' a' m' ∧ ¬ c a') E P := by
  have hptr : ∀ k a m, R k a m → (ptr a).toNat = dst.toNat + k := by
    intro k a m hr
    rw [(hR k a m hr).2, toNat_add_ofNat h (hR k a m hr).1]
  apply (wp_whileDo (fun a m => ∃ k, R k a m) (fun a => dst.toNat + n - (ptr a).toNat) _
    ⟨k, h0⟩ _).imp
  · exact fun a' m' ⟨⟨k', hr⟩, hc⟩ => ⟨k', hr, hc⟩
  · intro a m hI hc
    obtain ⟨k, hr⟩ := hI
    apply (hstep k a m hr hc).imp
    intro a' m' hr'
    obtain ⟨k', hlt, hr'⟩ := hr'
    have hk' := (hR k' a' m' hr').1
    refine ⟨⟨k', hr'⟩, ?_⟩
    rw [hptr k a m hr, hptr k' a' m' hr']
    omega
  · rw [hptr k a m h0]
    omega

/-- The copy has got as far as byte `k`. -/
structure CopiedTo (m : ByteMem 32) (dst src : Word) (n k : ℕ) (p : Word × Word)
    (m' : ByteMem 32) : Prop where
  le : k ≤ n
  ptrs : p = (dst + BitVec.ofNat 32 k, src + BitVec.ofNat 32 k)
  mem : m' = copyUp m dst src k

lemma wp_copyBytes {p : Word × Word} (h : dst.toNat + n < 2 ^ 32) {c : Word → Prop}
    [DecidablePred c] (hp : CopiedTo m dst src n k p m') (hfuel : n < fuel) :
    wp (copyBytes fuel (dst + BitVec.ofNat 32 n) c p) m' (fun p' m'' => ∃ k',
      CopiedTo m dst src n k' p' m'' ∧ (k' = n ∨ ¬ c (dst + BitVec.ofNat 32 k'))) E P := by
  unfold copyBytes
  apply (wp_region (R := CopiedTo m dst src n) Prod.fst h (fun k a m hr => ⟨hr.le, by rw [hr.ptrs]⟩)
    _ hp hfuel).imp
  · intro p' m'' hr
    obtain ⟨k', hr, hc⟩ := hr
    refine ⟨k', hr, ?_⟩
    rw [hr.ptrs, lt_max_iff h hr.le, not_and_or] at hc
    have hle := hr.le
    exact hc.symm.imp (fun hc => by omega) id
  · intro k p m₁ hr hc
    obtain ⟨hle, rfl, rfl⟩ := hr
    have hlt : k < n := (lt_max_iff h hle).mp hc.2
    refine ⟨k + 1, Nat.lt_succ_self k, hlt, ?_, rfl⟩
    rw [← add_ofNat_add, ← add_ofNat_add]

lemma wp_copyWords {p : Word × Word} (h : dst.toNat + n + 4 < 2 ^ 32)
    (hal : src.toNat % 4 = dst.toNat % 4) (hp : CopiedTo m dst src n k p m')
    (hk : k = n ∨ (dst.toNat + k) % 4 = 0) (hfuel : n < fuel) :
    wp (copyWords fuel (dst + BitVec.ofNat 32 n) p) m' (fun p' m'' => ∃ k',
      CopiedTo m dst src n k' p' m'') E P := by
  have hend : dst.toNat + n < 2 ^ 32 := by omega
  unfold copyWords
  apply (wp_region (R := fun k p m' => CopiedTo m dst src n k p m' ∧
    (k = n ∨ (dst.toNat + k) % 4 = 0))
    Prod.fst hend (fun k a m hr => ⟨hr.1.le, by rw [hr.1.ptrs]⟩) _ ⟨hp, hk⟩ hfuel).imp
  · exact fun p' m'' ⟨k', hr, _⟩ => ⟨k', hr.1⟩
  · intro k p m₁ hr hc
    obtain ⟨⟨hle, rfl, rfl⟩, hk⟩ := hr
    have hroom : k + 4 ≤ n := (add_four_le_max_iff h hle).mp hc
    have hd : (dst.toNat + k) % 4 = 0 := hk.resolve_left (by omega)
    have hword : (copyUp m dst src k).storeWord (dst + BitVec.ofNat 32 k)
        (loadWordAt (copyUp m dst src k) (src + BitVec.ofNat 32 k)) = copyUp m dst src (k + 4) := by
      rw [copyUp_add]
      apply copyWord_eq
      · rw [toNat_add_ofNat hend hle, hd]
      · rw [BitVec.toNat_add, BitVec.toNat_ofNat]
        omega
    refine ⟨k + 4, by omega, ⟨hroom, ?_, hword⟩, .inr (by omega)⟩
    rw [← add_ofNat_add, ← add_ofNat_add]

/-- The region is filled up to byte `k`. -/
structure FilledTo (m : ByteMem 32) (dst : Word) (byte : BitVec 8) (n k : ℕ) (a : Word)
    (m' : ByteMem 32) : Prop where
  le : k ≤ n
  ptr : a = dst + BitVec.ofNat 32 k
  mem : m' = fillUp m dst byte k

lemma fillUp_storeBytes (m : ByteMem 32) (dst : Word) (byte : BitVec 8) (k i : ℕ) :
    (fillUp m dst byte k).storeBytes (dst + BitVec.ofNat 32 k) (List.replicate i byte) =
      fillUp m dst byte (k + i) := by
  unfold fillUp
  rw [← List.replicate_append_replicate, ByteMem.storeBytes_append, List.length_replicate]

lemma wp_fillBytes (h : dst.toNat + n < 2 ^ 32) {c : Word → Prop} [DecidablePred c]
    (ha : FilledTo m dst byte n k a m') (hfuel : n < fuel) :
    wp (fillBytes fuel (dst + BitVec.ofNat 32 n) byte c a) m' (fun a' m'' => ∃ k',
      FilledTo m dst byte n k' a' m'' ∧ (k' = n ∨ ¬ c (dst + BitVec.ofNat 32 k'))) E P := by
  unfold fillBytes
  apply (wp_region (R := FilledTo m dst byte n) id h
    (fun k a m hr => ⟨hr.le, hr.ptr⟩) _ ha hfuel).imp
  · intro a' m'' hr
    obtain ⟨k', hr, hc⟩ := hr
    refine ⟨k', hr, ?_⟩
    rw [hr.ptr, lt_max_iff h hr.le, not_and_or] at hc
    have hle := hr.le
    exact hc.symm.imp (fun hc => by omega) id
  · intro k a m₁ hr hc
    obtain ⟨hle, rfl, rfl⟩ := hr
    have hlt : k < n := (lt_max_iff h hle).mp hc.2
    refine ⟨k + 1, Nat.lt_succ_self k, hlt, ?_, fillUp_storeBytes m dst byte k 1⟩
    rw [← add_ofNat_add]

lemma wp_fillWords (h : dst.toNat + n + 4 < 2 ^ 32) (ha : FilledTo m dst byte n k a m')
    (hfuel : n < fuel) :
    wp (fillWords fuel (dst + BitVec.ofNat 32 n) (broadcast byte) a) m' (fun a' m'' => ∃ k',
      FilledTo m dst byte n k' a' m'') E P := by
  have hend : dst.toNat + n < 2 ^ 32 := by omega
  unfold fillWords
  apply (wp_region (R := FilledTo m dst byte n) id hend (fun k a m hr => ⟨hr.le, hr.ptr⟩) _ ha
    hfuel).imp
  · exact fun a' m'' ⟨k', hr, _⟩ => ⟨k', hr⟩
  · intro k a m₁ hr hc
    obtain ⟨hle, rfl, rfl⟩ := hr
    have hroom : k + 4 ≤ n := (add_four_le_max_iff h hle).mp hc
    refine ⟨k + 4, by omega, hroom, ?_, ?_⟩
    · rw [← add_ofNat_add]
    · unfold ByteMem.storeWord
      rw [← fillUp_storeBytes, wordBytes_broadcast]

/-! ## The functions as a whole -/

/-- The region of `n` bytes at `dst`. -/
def InRegion (dst : Word) (n : ℕ) (x : Word) : Prop := dst.toNat ≤ x.toNat ∧ x.toNat < dst.toNat + n

lemma ne_of_not_inRegion (h : dst.toNat + n < 2 ^ 32) (hx : ¬ InRegion dst n x) :
    ∀ i < n, x ≠ dst + BitVec.ofNat 32 i := by
  intro i hi heq
  apply hx
  unfold InRegion
  rw [heq, toNat_add_ofNat h hi.le]
  omega

lemma get_fillUp (h : dst.toNat + n < 2 ^ 32) (x : Word) :
    (InRegion dst n x → (fillUp m dst byte n).get x = byte) ∧
      (¬ InRegion dst n x → (fillUp m dst byte n).get x = m.get x) := by
  have hlen : (List.replicate n byte).length ≤ 2 ^ 32 := by
    rw [List.length_replicate]
    omega
  unfold fillUp InRegion
  rw [ByteMem.get_storeBytes m dst hlen, List.getElem?_replicate]
  have hx := x.isLt
  constructor
  · intro hin
    have hsub : (x - dst).toNat < n := by
      rw [BitVec.toNat_sub]
      omega
    rw [if_pos hsub, Option.getD_some]
  · intro hout
    have hsub : ¬ (x - dst).toNat < n := by
      rw [BitVec.toNat_sub]
      omega
    rw [if_neg hsub, Option.getD_none]

lemma wp_memcpy (h : dst.toNat + n + 4 < 2 ^ 32) (hfuel : n < fuel) :
    wp (memcpy fuel dst src (BitVec.ofNat 32 n)) m
      (fun r m' => r = dst ∧ m' = copyUp m dst src n) E P := by
  have hmax : dst.toNat + n < 2 ^ 32 := by omega
  have hstart : CopiedTo m dst src n 0 (dst, src) m := ⟨Nat.zero_le n, by simp, rfl⟩
  have hend : ∀ p m', (∃ k, CopiedTo m dst src n k p m' ∧ (k = n ∨ ¬ True)) →
      m' = copyUp m dst src n := by
    intro p m' hp
    obtain ⟨k, hr, hk⟩ := hp
    rw [hr.mem, hk.resolve_right (not_not.mpr trivial)]
  unfold memcpy
  rw [wp_ite]
  constructor
  · -- bytes all the way
    intro _
    rw [wp_bind]
    apply (wp_copyBytes hmax hstart hfuel).imp
    exact fun p m' hp => ⟨rfl, hend p m' hp⟩
  · intro hal
    have hal : src.toNat % 4 = dst.toNat % 4 := by
      rw [← and_three, ← and_three, not_not.mp hal]
    rw [wp_bind]
    apply (wp_copyBytes hmax hstart hfuel).imp
    intro p m' hp
    obtain ⟨k, hr, hk⟩ := hp
    have hk : k = n ∨ (dst.toNat + k) % 4 = 0 := by
      apply hk.imp id
      intro hc
      rw [← toNat_add_ofNat hmax hr.le, ← and_three, not_not.mp hc]
      rfl
    rw [wp_bind]
    apply (wp_copyWords h hal hr hk hfuel).imp
    intro p m' hp
    obtain ⟨k, hr⟩ := hp
    rw [wp_bind]
    apply (wp_copyBytes hmax hr hfuel).imp
    exact fun p m' hp => ⟨rfl, hend p m' hp⟩

lemma wp_memset (h : dst.toNat + n + 4 < 2 ^ 32) (hfuel : n < fuel) (c : Word) :
    wp (memset fuel dst c (BitVec.ofNat 32 n)) m
      (fun r m' => r = dst ∧ m' = fillUp m dst ((c &&& 0xFF#32).setWidth 8) n) E P := by
  have hmax : dst.toNat + n < 2 ^ 32 := by omega
  have hstart : FilledTo m dst ((c &&& 0xFF#32).setWidth 8) n 0 dst m :=
    ⟨Nat.zero_le n, by simp, rfl⟩
  unfold memset
  rw [wp_bind]
  apply (wp_fillBytes hmax hstart hfuel).imp
  intro a m' ha
  obtain ⟨k, hr, -⟩ := ha
  rw [wp_bind]
  apply (wp_fillWords h hr hfuel).imp
  intro a m' ha
  obtain ⟨k, hr⟩ := ha
  rw [wp_bind]
  apply (wp_fillBytes hmax hr hfuel).imp
  intro a m' ha
  obtain ⟨k, hr, hk⟩ := ha
  refine ⟨rfl, ?_⟩
  rw [hr.mem, hk.resolve_right (not_not.mpr trivial)]

/-- **Copying and filling by words is copying and filling byte by byte**, for regions that end five
bytes before the end of memory or earlier, and nothing outside the region changes. -/
theorem memcpy_memset_bytewise (m : ByteMem 32) (dst src c n : Word)
    (h : dst.toNat + n.toNat + 4 < 2 ^ 32) (hfuel : n.toNat < fuel) :
    memcpy fuel dst src n m = .ok dst (copyUp m dst src n.toNat) ∧
    (∀ x, ¬ InRegion dst n.toNat x → (copyUp m dst src n.toNat).get x = m.get x) ∧
    ∃ m', memset fuel dst c n m = .ok dst m' ∧
      ∀ x, (InRegion dst n.toNat x → m'.get x = (c &&& 0xFF#32).setWidth 8) ∧
        (¬ InRegion dst n.toNat x → m'.get x = m.get x) := by
  have hn : BitVec.ofNat 32 n.toNat = n := by simp
  refine ⟨?_, fun x hx => get_copyUp_of_ne (ne_of_not_inRegion (by omega) hx), ?_⟩
  · have hwp : wp (memcpy fuel dst src (BitVec.ofNat 32 n.toNat)) m _ _ _ :=
      wp_memcpy (E := fun _ _ => False)
      (P := fun _ => False) h hfuel
    obtain ⟨r, m', hrun, rfl, rfl⟩ := hwp.exists_ok
    rw [← hrun, hn]
  · have hwp : wp (memset fuel dst c (BitVec.ofNat 32 n.toNat)) m _ _ _ :=
      wp_memset (E := fun _ _ => False)
      (P := fun _ => False) h hfuel c
    obtain ⟨r, m', hrun, rfl, rfl⟩ := hwp.exists_ok
    refine ⟨_, ?_, get_fillUp (by omega)⟩
    rw [← hrun, hn]

end

/-- Overlapping regions, the source four bytes before the destination; a value of more than a byte.
-/
theorem memcpy_memset_bytewise_overlap :
    memcpy 11 9#32 5#32 10#32 ⟨fun a => a.setWidth 8, []⟩ =
      .ok 9#32 (copyUp ⟨fun a => a.setWidth 8, []⟩ 9#32 5#32 10) ∧
    ∃ m', memset 11 9#32 0x141#32 10#32 ⟨fun a => a.setWidth 8, []⟩ = .ok 9#32 m' ∧
      m'.get 18#32 = 0x41#8 := by
  obtain ⟨hcpy, -, m', hset, hget⟩ := @memcpy_memset_bytewise 11 ⟨fun a => a.setWidth 8, []⟩
    9#32 5#32 0x141#32 10#32 (by decide) (by decide)
  exact ⟨hcpy, m', hset, (hget 18#32).1 (by unfold InRegion; decide)⟩

end MosRv
