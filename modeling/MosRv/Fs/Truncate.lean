import MosRv.Fs.Cut
import MosRv.Fs.Runs

/-!
# Truncation (`file_truncate`)

`View.Truncated` is what truncating a file to a size should do: the blocks below the number that the
size needs stay, all others are freed, and so is the indirect block if it is not needed any more.

`file_truncate` takes `newsize / BY2BLK + 1` for this number, and 0 for the size 0.  That is one
block too many for a multiple of the block size, so there the last block stays, and at ten blocks
the indirect block.  `file_truncate_iff` says that this is the only way in which it goes wrong.
-/

namespace MosRv.Fs

open Prog View Reach

/-- The number of blocks that a size needs, `⌈size / BY2BLK⌉`. -/
def blocksNeeded (size : Word) : ℕ := (size.toNat + (BY2BLK - 1)) / BY2BLK

/-- **What truncation is to do** to a file. -/
structure View.Truncated (f : FileRef) (newsize : Word) (v v' : View) : Prop where
  kept : ∀ n < NINDIRECT, n < blocksNeeded newsize →
    v'.num f (.of n) = v.num f (.of n) ∧
      (v.num f (.of n) ≠ 0 → v' (v.num f (.of n)) = v (v.num f (.of n)))
  cleared : ∀ n < NINDIRECT, blocksNeeded newsize ≤ n →
    v'.num f (.of n) = 0 ∧ (v.num f (.of n) ≠ 0 → v'.Free (v.num f (.of n)))
  indirect : v'.num f .indirect ≠ 0 → NDIRECT < blocksNeeded newsize
  used : ∀ b < v.nblocks, v.Free b → v'.Free b
  free : ∀ b < v.nblocks, v'.Free b → v.Free b ∨
    (∃ n < NINDIRECT, blocksNeeded newsize ≤ n ∧ v.num f (.of n) = b) ∨
      v.num f .indirect = b ∧ v'.num f .indirect = 0
  size : v'.field f F_SIZE = newsize

/-- The block behind the new size, which the code keeps, is not there. -/
def View.EndsBefore (v : View) (f : FileRef) (newsize : Word) : Prop :=
  newsize.toNat % BY2BLK = 0 → newsize ≠ 0#32 →
    (newsize.toNat / BY2BLK < NINDIRECT → v.num f (.of (newsize.toNat / BY2BLK)) = 0) ∧
      (newsize.toNat / BY2BLK = NDIRECT → v.num f .indirect = 0)

/-- The blocks of a file are below the end of its size, rounded up as the code does. -/
def View.Trimmed (v : View) (f : FileRef) : Prop :=
  ∀ n < NINDIRECT, (v.field f F_SIZE).toNat / BY2BLK + 1 ≤ n → v.num f (.of n) = 0

section

variable {O : Set FileRef} {s s' : Server} {v v' : View} {f g : FileRef} {sl sl' : Slot}
variable {b lo k n : ℕ} {w : Word}

/-! ## Other blocks -/

/-- A file does not sit in one of its own blocks. -/
lemma View.Own.block_ne_num (h : v.Own O) (hf : v.Live O f) (hsl : sl.Ok) (hne : v.num f sl ≠ 0) :
    f.block ≠ v.num f sl := by
  induction hf generalizing sl with
  | root =>
      have hgt := (h.range .root sl .root hsl hne).1
      have h2 := @two_le_lastReserved v
      change 1 ≠ _
      omega
  | @entry d sl' j hd hdir hsl' hb hj hn ih =>
      intro heq
      have hlive : v.Live O (.entry (v.num d sl') j) := .entry hd hdir hsl' hb hj hn
      obtain ⟨hdf, rfl⟩ := h.inj d sl' _ sl hd hlive hsl'.ok hsl hb heq
      exact ih hsl'.ok hb (congrArg FileRef.block hdf)

/-- Emptying a slot touches the slot and the bitmap. -/
lemma View.Own.clearSlot_word (h : v.Own O) (hf : v.Live O f) (hsl : sl.Ok)
    (hb : b = 1 ∨ v.lastReserved < b) (hne : (b, k) ≠ v.slotAddr f sl) :
    v.clearSlot f sl b k = v b k := by
  rw [View.clearSlot]
  split_ifs with hnum
  · have hlt := (h.range f sl hf hsl hnum).2.1
    have hbit : bitmapBlock (v.num f sl) ≤ v.lastReserved := bitmapBlock_le hlt
    have htwo := @two_le_bitmapBlock (v.num f sl)
    rw [View.unlink, setFree, store_of_ne _ _ _ _ (by omega), setSlot, store_apply, if_neg]
    exact fun hc => hne (Prod.ext hc.1 hc.2)
  · rfl

/-- A word of the `struct File`. -/
def FileRef.Contains (f : FileRef) (b k : ℕ) : Prop := b = f.block ∧ f.word ≤ k ∧ k < f.word + 64

lemma View.Own.free_clearSlot (h : v.Own O) (hf : v.Live O f) (hsl : sl.Ok) (hb : b < v.nblocks) :
    (v.clearSlot f sl).Free b ↔ v.Free b ∨ v.num f sl = b ∧ b ≠ 0 := by
  rw [View.clearSlot]
  split_ifs with hne
  · rw [h.free_unlink hf hsl hne hb, eq_comm]
    exact or_congr_right ⟨fun heq => ⟨heq, heq ▸ hne⟩, And.left⟩
  · exact ⟨.inl, fun hor => hor.elim id fun hc => absurd (hc.1.symm.trans (not_not.mp hne)) hc.2⟩

lemma View.Own.indirect_clearBlocks (h : v.Own O) (hf : v.Live O f) (lo k : ℕ) :
    (v.clearBlocks f lo k).num f .indirect = v.num f .indirect := by
  induction k with
  | zero => rfl
  | succ k ih =>
      rw [View.clearBlocks]
      by_cases hk : lo + k < NINDIRECT
      · obtain ⟨he, hl⟩ := h.edits_clearBlocks hf lo k
        have hsl := Slot.data_of hk
        rw [View.clearBlock_eq hk, View.clearSlot, ← ih]
        split_ifs with hne
        · exact (he.own h).num_unlink_same hl hsl.ok Slot.ok_indirect hne hsl.ne_indirect
            fun hc => hsl.ne_indirect hc.1
        · rfl
      · rw [View.clearBlock_of_ge hk, ih]

/-- Emptying slots touches the `struct File`, the slots in the indirect block, and the bitmap. -/
lemma View.Own.clearBlocks_word {j : ℕ} (h : v.Own O) (hf : v.Live O f)
    (hb : b = 1 ∨ v.lastReserved < b) (hout : ¬ f.Contains b j)
    (hind : b = v.num f .indirect → ¬ (NDIRECT ≤ j ∧ j < NINDIRECT ∧ lo ≤ j ∧ j < lo + k)) :
    v.clearBlocks f lo k b j = v b j := by
  induction k with
  | zero => rfl
  | succ k ih =>
      have ih := ih fun heq hc => hind heq ⟨hc.1, hc.2.1, hc.2.2.1, by omega⟩
      rw [View.clearBlocks]
      by_cases hk : lo + k < NINDIRECT
      · obtain ⟨he, hl⟩ := h.edits_clearBlocks hf lo k
        have hlast := lastReserved_congr (he.nblocks h)
        rw [View.clearBlock_eq hk, (he.own h).clearSlot_word hl (Slot.data_of hk).ok
          (hlast ▸ hb), ih]
        intro haddr
        by_cases hd : lo + k < NDIRECT
        · rw [Slot.of_direct hd] at haddr
          obtain ⟨rfl, rfl⟩ := Prod.mk.inj haddr
          simp only [NDIRECT] at hd
          refine hout ⟨rfl, ?_, ?_⟩ <;> simp only [F_DIRECT] <;> omega
        · rw [Slot.of_index hd] at haddr
          obtain ⟨hblock, rfl⟩ := Prod.mk.inj haddr
          have hind' : b = (v.clearBlocks f lo k).num f .indirect := hblock
          rw [h.indirect_clearBlocks hf] at hind'
          exact hind hind' ⟨not_lt.mp hd, hk, by omega, by omega⟩
      · rw [View.clearBlock_of_ge hk, ih]

/-- Which blocks are free afterwards. -/
lemma View.Own.free_clearBlocks (h : v.Own O) (hf : v.Live O f) (hb : b < v.nblocks) :
    (v.clearBlocks f lo k).Free b ↔ v.Free b ∨
      ∃ n < NINDIRECT, lo ≤ n ∧ n < lo + k ∧ v.num f (.of n) = b ∧ b ≠ 0 := by
  induction k with
  | zero =>
      rw [View.clearBlocks]
      constructor
      · exact .inl
      · rintro (hfree | ⟨n, -, hle, hlt, -, -⟩)
        · exact hfree
        · omega
  | succ k ih =>
      rw [View.clearBlocks]
      by_cases hk : lo + k < NINDIRECT
      · obtain ⟨he, hl⟩ := h.edits_clearBlocks hf lo k
        have hsl := Slot.data_of hk
        have hnum := @View.Own.num_clearBlocks _ _ _ lo k _ h hf hk
        rw [if_neg (by omega)] at hnum
        rw [View.clearBlock_eq hk, (he.own h).free_clearSlot hl hsl.ok
          (by rwa [he.nblocks h]), hnum, ih,
          or_assoc]
        refine or_congr_right ⟨?_, ?_⟩
        · rintro (⟨n, hn, hlo, hhi, heq, hb0⟩ | ⟨heq, hb0⟩)
          · exact ⟨n, hn, hlo, by omega, heq, hb0⟩
          · exact ⟨lo + k, hk, by omega, by omega, heq, hb0⟩
        · rintro ⟨n, hn, hlo, hhi, heq, hb0⟩
          by_cases hnk : n = lo + k
          · exact .inr ⟨hnk ▸ heq, hb0⟩
          · exact .inl ⟨n, hn, hlo, by omega, heq, hb0⟩
      · rw [View.clearBlock_of_ge hk, ih]
        refine or_congr_right ⟨?_, ?_⟩
        · rintro ⟨n, hn, hlo, hhi, heq⟩
          exact ⟨n, hn, hlo, by omega, heq⟩
        · rintro ⟨n, hn, hlo, hhi, heq⟩
          exact ⟨n, hn, hlo, by omega, heq⟩

/-! ## The whole file -/

/-- The view before the size is stored. -/
lemma View.Own.truncate_eq (h : v.Own O) (hf : v.Live O f) (w : Word) :
    ∃ v₁ v₂ : View, v₁ = v.clearBlocks f (newNblocks w)
        ((v.field f F_SIZE).toNat / BY2BLK + 1 - newNblocks w) ∧
      v₂ = (if newNblocks w ≤ NDIRECT then v₁.clearSlot f .indirect else v₁) ∧
      v.truncate f w = v₂.store f.block (f.word + F_SIZE) w ∧
      Edits O v v₁ ∧ v₁.Live O f ∧ Edits O v v₂ ∧ v₂.Live O f := by
  obtain ⟨he₁, hl₁⟩ := h.edits_clearBlocks hf (newNblocks w)
    ((v.field f F_SIZE).toNat / BY2BLK + 1 - newNblocks w)
  obtain ⟨he₂, hl₂⟩ := (he₁.own h).edits_clearIndirect hl₁ (newNblocks w)
  exact ⟨_, _, rfl, rfl, rfl, he₁, hl₁, he₁.trans he₂, hl₂⟩

lemma View.Own.indirect_truncate (h : v.Own O) (hf : v.Live O f) (w : Word) :
    (v.truncate f w).num f .indirect =
      if newNblocks w ≤ NDIRECT then 0 else v.num f .indirect := by
  obtain ⟨v₁, v₂, hv₁, hv₂, heq, he₁, hl₁, he₂, hl₂⟩ := h.truncate_eq hf w
  have hagree := (he₂.own h).agree_field hl₂ (k := F_SIZE) (by decide) (by decide) w
  have hind : v₁.num f .indirect = v.num f .indirect := by
    rw [hv₁, h.indirect_clearBlocks hf]
  rw [heq, hagree.num hl₂ Slot.ok_indirect, hv₂]
  split_ifs with hnew
  · rw [View.clearSlot]
    split_ifs with hne
    · exact (he₁.own h).num_unlink_self hl₁ Slot.ok_indirect hne
    · exact not_not.mp hne
  · exact hind

/-- **Which blocks the file has afterwards.** -/
lemma View.Own.num_truncate (h : v.Own O) (hf : v.Live O f) (w : Word) (hn : n < NINDIRECT) :
    (v.truncate f w).num f (.of n) =
      if newNblocks w ≤ n ∧ n < (v.field f F_SIZE).toNat / BY2BLK + 1 ∨
        newNblocks w ≤ NDIRECT ∧ NDIRECT ≤ n then 0 else v.num f (.of n) := by
  have hsl := Slot.data_of hn
  by_cases hgone : newNblocks w ≤ NDIRECT ∧ NDIRECT ≤ n
  · -- the indirect block is gone
    rw [if_pos (.inr hgone), Slot.of_index (not_lt.mpr hgone.2)]
    exact num_index_eq_zero (by rw [h.indirect_truncate hf, if_pos hgone.1])
  obtain ⟨v₁, v₂, hv₁, hv₂, heq, he₁, hl₁, he₂, hl₂⟩ := h.truncate_eq hf w
  have hagree := (he₂.own h).agree_field hl₂ (k := F_SIZE) (by decide) (by decide) w
  have hrange : (newNblocks w ≤ n ∧ n < newNblocks w +
      ((v.field f F_SIZE).toNat / BY2BLK + 1 - newNblocks w)) ↔
      (newNblocks w ≤ n ∧ n < (v.field f F_SIZE).toNat / BY2BLK + 1 ∨
        newNblocks w ≤ NDIRECT ∧ NDIRECT ≤ n) := by
    rw [or_iff_left hgone]
    omega
  have hnum₁ : v₁.num f (.of n) = if newNblocks w ≤ n ∧ n < (v.field f F_SIZE).toNat / BY2BLK + 1 ∨
      newNblocks w ≤ NDIRECT ∧ NDIRECT ≤ n then 0 else v.num f (.of n) := by
    rw [hv₁, h.num_clearBlocks hf hn, if_congr hrange rfl rfl]
  rw [heq, hagree.num hl₂ hsl.ok, hv₂, ← hnum₁]
  split_ifs with hnew
  · rw [View.clearSlot]
    split_ifs with hne
    · refine (he₁.own h).num_unlink_same hl₁ Slot.ok_indirect hsl.ok hne hsl.ne_indirect.symm ?_
      rintro ⟨-, i, hi⟩
      obtain ⟨-, hge⟩ := Slot.of_eq_index hi
      exact hgone ⟨hnew, hge⟩
    · rfl
  · rfl

/-- **Which blocks are free afterwards.** -/
lemma View.Own.free_truncate (h : v.Own O) (hf : v.Live O f) (w : Word) (hb : b < v.nblocks) :
    (v.truncate f w).Free b ↔ v.Free b ∨
      (∃ n < NINDIRECT, newNblocks w ≤ n ∧ n < (v.field f F_SIZE).toNat / BY2BLK + 1 ∧
        v.num f (.of n) = b ∧ b ≠ 0) ∨
      newNblocks w ≤ NDIRECT ∧ v.num f .indirect = b ∧ b ≠ 0 := by
  obtain ⟨v₁, v₂, hv₁, hv₂, heq, he₁, hl₁, he₂, hl₂⟩ := h.truncate_eq hf w
  have hn₁ := he₁.nblocks h
  have hn₂ := he₂.nblocks h
  have hfree₁ : v₁.Free b ↔ v.Free b ∨ ∃ n < NINDIRECT, newNblocks w ≤ n ∧
      n < (v.field f F_SIZE).toNat / BY2BLK + 1 ∧ v.num f (.of n) = b ∧ b ≠ 0 := by
    rw [hv₁, h.free_clearBlocks hf hb]
    refine or_congr_right ⟨?_, ?_⟩
    · rintro ⟨n, hn, hlo, hhi, hnum⟩
      exact ⟨n, hn, hlo, by omega, hnum⟩
    · rintro ⟨n, hn, hlo, hhi, hnum⟩
      exact ⟨n, hn, hlo, by omega, hnum⟩
  have hind : v₁.num f .indirect = v.num f .indirect := by
    rw [hv₁, h.indirect_clearBlocks hf]
  have hfree₂ : v₂.Free b ↔ v₁.Free b ∨ newNblocks w ≤ NDIRECT ∧ v.num f .indirect = b ∧ b ≠ 0 := by
    rw [hv₂, ← hind]
    split_ifs with hnew
    · rw [(he₁.own h).free_clearSlot hl₁ Slot.ok_indirect (by rwa [hn₁])]
      exact or_congr_right (and_iff_right hnew).symm
    · exact ⟨.inl, fun hor => hor.elim id fun hc => absurd hc.1 hnew⟩
  rw [heq, free_store ((he₂.own h).plain_field hl₂ F_SIZE) (by rwa [hn₂]), hfree₂, hfree₁, or_assoc]

/-- The other words are what they were. -/
lemma View.Own.truncate_word (h : v.Own O) (hf : v.Live O f) (w : Word)
    (hb : b = 1 ∨ v.lastReserved < b) (hout : ¬ f.Contains b k)
    (hind : b = v.num f .indirect → ¬ (NDIRECT ≤ k ∧ k < NINDIRECT ∧ newNblocks w ≤ k ∧
      k < (v.field f F_SIZE).toNat / BY2BLK + 1)) :
    v.truncate f w b k = v b k := by
  obtain ⟨v₁, v₂, hv₁, hv₂, heq, he₁, hl₁, he₂, hl₂⟩ := h.truncate_eq hf w
  have hword₁ : v₁ b k = v b k := by
    rw [hv₁, h.clearBlocks_word hf hb hout]
    exact fun hc hr => hind hc ⟨hr.1, hr.2.1, hr.2.2.1, by omega⟩
  rw [heq, store_apply, if_neg, hv₂]
  · split_ifs with hnew
    · rw [(he₁.own h).clearSlot_word hl₁ Slot.ok_indirect
        (by rwa [lastReserved_congr (he₁.nblocks h)]), hword₁]
      rintro ⟨⟩
      exact hout ⟨rfl, Nat.le_add_right _ _, Nat.add_lt_add_left (by decide) _⟩
    · exact hword₁
  · rintro ⟨rfl, rfl⟩
    exact hout ⟨rfl, Nat.le_add_right _ _, Nat.add_lt_add_left (by decide) _⟩

/-- The other blocks hold what they held. -/
lemma View.Own.truncate_block (h : v.Own O) (hf : v.Live O f) (w : Word) (hb : v.lastReserved < b)
    (hne : b ≠ f.block) (hind : b ≠ v.num f .indirect) : v.truncate f w b = v b :=
  funext fun _ => h.truncate_word hf w (.inr hb) (fun hc => hne hc.1) fun hc => absurd hc hind

lemma View.field_truncate (v : View) (f : FileRef) (w : Word) :
    (v.truncate f w).field f F_SIZE = w := by
  rw [View.truncate, field, store_apply, if_pos ⟨rfl, rfl⟩]

/-! ## Exact truncation -/

lemma newNblocks_zero : newNblocks 0#32 = 0 := rfl

lemma newNblocks_of_ne (h : w ≠ 0#32) : newNblocks w = w.toNat / BY2BLK + 1 := if_neg h

/-- The code takes the right number, but for multiples of the block size. -/
lemma newNblocks_eq (h : w.toNat % BY2BLK ≠ 0) : newNblocks w = blocksNeeded w := by
  have hne : w ≠ 0#32 := by
    rintro rfl
    exact h rfl
  rw [newNblocks_of_ne hne, blocksNeeded]
  simp only [BY2BLK] at h ⊢
  omega

lemma newNblocks_eq_succ (h : w.toNat % BY2BLK = 0) (hne : w ≠ 0#32) :
    newNblocks w = blocksNeeded w + 1 ∧ blocksNeeded w = w.toNat / BY2BLK ∧
    0 < w.toNat / BY2BLK := by
  have hpos : w.toNat ≠ 0 := fun hc => hne (BitVec.eq_of_toNat_eq hc)
  rw [newNblocks_of_ne hne, blocksNeeded]
  simp only [BY2BLK] at h ⊢
  omega

lemma blocksNeeded_le_newNblocks (w : Word) : blocksNeeded w ≤ newNblocks w := by
  by_cases hne : w = 0#32
  · subst hne
    exact le_rfl
  by_cases hmod : w.toNat % BY2BLK = 0
  · have := (newNblocks_eq_succ hmod hne).1
    omega
  · exact (newNblocks_eq hmod).ge

/-- **The blocks stay and go as they should exactly if the block behind the new size is not there.**
-/
lemma View.Own.truncated_iff (h : v.Own O) (hf : v.Live O f)
    (hle : w.toNat ≤ (v.field f F_SIZE).toNat) (htrim : v.Trimmed f) :
    Truncated f w v (v.truncate f w) ↔ v.EndsBefore f w := by
  have hdiv : w.toNat / BY2BLK ≤ (v.field f F_SIZE).toNat / BY2BLK := Nat.div_le_div_right hle
  constructor
  · intro ht hmod hne
    obtain ⟨hnew, hneed, hpos⟩ := newNblocks_eq_succ hmod hne
    refine ⟨fun hq => ?_, fun hq => ?_⟩
    · have hzero := (ht.cleared _ hq hneed.le).1
      rw [h.num_truncate hf w hq] at hzero
      split_ifs at hzero with hgone
      · -- the code keeps the block, and its indirect block
        rcases hgone with hgone | hgone <;> omega
      · exact hzero
    · by_contra hind
      have hkept := h.indirect_truncate hf w
      rw [if_neg (by omega)] at hkept
      have := ht.indirect (hkept ▸ hind)
      omega
  · intro hends
    -- the slots from the needed number on
    have hcleared : ∀ n < NINDIRECT, blocksNeeded w ≤ n →
        v.num f (.of n) = 0 ∨ newNblocks w ≤ n ∧ n < (v.field f F_SIZE).toNat / BY2BLK + 1 := by
      intro n hn hneed
      by_cases hold : (v.field f F_SIZE).toNat / BY2BLK + 1 ≤ n
      · exact .inl (htrim n hn hold)
      by_cases hnew : newNblocks w ≤ n
      · exact .inr ⟨hnew, not_le.mp hold⟩
      have hmod : w.toNat % BY2BLK = 0 := by
        by_contra hmod
        rw [newNblocks_eq hmod] at hnew
        exact hnew hneed
      have hne : w ≠ 0#32 := by
        rintro rfl
        exact hnew (Nat.zero_le _)
      obtain ⟨hsucc, hq, -⟩ := newNblocks_eq_succ hmod hne
      obtain rfl : n = w.toNat / BY2BLK := by omega
      exact .inl ((hends hmod hne).1 hn)
    have hle' := blocksNeeded_le_newNblocks w
    refine ⟨fun n hn hlt => ?_, fun n hn hge => ?_, fun hind => ?_, fun b hb hfree => ?_,
      fun b hb hfree => ?_, v.field_truncate f w⟩
    · have hnum : (v.truncate f w).num f (.of n) = v.num f (.of n) := by
        rw [h.num_truncate hf w hn, if_neg]
        rintro (hgone | hgone) <;> omega
      refine ⟨hnum, fun hne => ?_⟩
      have hsl := Slot.data_of hn
      refine h.truncate_block hf w (h.range f _ hf hsl.ok hne).1
        (h.block_ne_num hf hsl.ok hne).symm ?_
      intro hc
      exact hsl.ne_indirect (h.inj f _ f _ hf hf hsl.ok Slot.ok_indirect hne hc).2
    · have hsl := Slot.data_of hn
      rcases hcleared n hn hge with hzero | hgone
      · refine ⟨?_, fun hne => absurd hzero hne⟩
        rw [h.num_truncate hf w hn, hzero, ite_self]
      · refine ⟨by rw [h.num_truncate hf w hn, if_pos (.inl hgone)], fun hne => ?_⟩
        have hlt := (h.range f _ hf hsl.ok hne).2.1
        exact (h.free_truncate hf w hlt).mpr (.inr (.inl ⟨n, hn, hgone.1, hgone.2, rfl, hne⟩))
    · rw [h.indirect_truncate hf w] at hind
      split_ifs at hind with hnew
      · exact absurd rfl hind
      · -- eleven blocks are kept, or more; ten are needed only without an indirect block
        by_contra hten
        have hmod : w.toNat % BY2BLK = 0 := by
          by_contra hmod
          rw [newNblocks_eq hmod] at hnew
          exact hten (not_le.mp hnew)
        have hne : w ≠ 0#32 := by
          rintro rfl
          exact hnew (Nat.zero_le _)
        obtain ⟨hsucc, hq, -⟩ := newNblocks_eq_succ hmod hne
        exact hind ((hends hmod hne).2 (by omega))
    · exact (h.free_truncate hf w hb).mpr (.inl hfree)
    · rcases (h.free_truncate hf w hb).mp hfree with hfree |
        ⟨n, hn, hlo, -, hnum, -⟩ | ⟨hnew, hnum, -⟩
      · exact .inl hfree
      · exact .inr (.inl ⟨n, hn, hle'.trans hlo, hnum⟩)
      · exact .inr (.inr ⟨hnum, by rw [h.indirect_truncate hf w, if_pos hnew]⟩)

/-- **`file_truncate` frees exactly the blocks that the shorter file does not need** if and only if
the new size is not a multiple of the block size, or the file has no block behind it. -/
theorem file_truncate_iff (h : s.Sound O) (hf : s.view.Live O f) (hm : (s.cache f.block).isSome)
    (hle : w.toNat ≤ (s.view.field f F_SIZE).toNat) (htrim : s.view.Trimmed f) :
    wp (fileTruncate f w) s
      (fun _ s' => Truncated f w s.view s'.view ↔ s.view.EndsBefore f w) (fun _ _ => False)
      s.OutOfMemory := by
  refine (answered_fileTruncate f w).outOfMemory ?_
  refine (h.wp_fileTruncate hf hm w).mono (fun _ s' hbec => ?_) (fun _ _ he => he) fun _ hp => hp
  rw [hbec.view]
  exact h.own.truncated_iff hf hle htrim

end

/-! ## A file of two blocks -/

/-- A disk with a file "a" of 8192 bytes, in the blocks 4 and 5. -/
def twoBlockDisk : View
  | 1 => .ofWords [(0, FS_MAGIC), (1, 6#32), (34, 4096#32), (35, FTYPE_DIR), (36, 3#32)]
  | 3 => .ofWords [(0, 0x61#32), (32, 8192#32), (34, 4#32), (35, 5#32)]
  | _ => Block.zero

lemma wellFormed_twoBlockDisk : WellFormed twoBlockDisk :=
  wellFormed_of_checks [.root, .entry 3 0] (by decide) (by decide)
    (by decide) (by decide) (by decide) (by decide)

/-- The file is open, and can be cut off. -/
structure Server.Cuttable (O : Set FileRef) (s : Server) (f : FileRef) : Prop where
  sound : s.Sound O
  live : s.view.Live O f
  mapped : (s.cache f.block).isSome
  size : s.view.field f F_SIZE = 8192#32
  second : s.view.num f (.of 1) = 5
  trimmed : s.view.Trimmed f
  returns : ∃ s', fileTruncate f 4096#32 s = .ok () s'

lemma exists_cuttable : ∃ (O : Set FileRef) (s : Server), s.Cuttable O (.entry 3 0) := by
  have hrun : ((World.boot twoBlockDisk).bind fun w =>
      [.openFile [0x61#8]].foldlM (World.next fun w op => op.FirstWalk w) w).any (fun w =>
        decide (w.opened = [.entry 3 0] ∧ w.server.view.IsDir .root ∧
          w.server.view.num .root (.direct 0) = 3 ∧ w.server.view.Named (.entry 3 0) ∧
          (w.server.cache 3).isSome ∧ w.server.view.field (.entry 3 0) F_SIZE = 8192#32 ∧
          w.server.view.num (.entry 3 0) (.of 1) = 5 ∧
          (∀ n < NDIRECT, 3 ≤ n → w.server.view.num (.entry 3 0) (.of n) = 0) ∧
          w.server.view.num (.entry 3 0) .indirect = 0) &&
        (fileTruncate (.entry 3 0) 4096#32 w.server).returned fun _ _ => true) = true := by
    decide +kernel
  obtain ⟨w, hw, htest⟩ := World.reaches_of_any _ _ hrun
  rw [Bool.and_eq_true, decide_eq_true_iff] at htest
  obtain ⟨⟨hopen, hdir, hnum, hnamed, hm, hsize, hsecond, hdirect, hind⟩, hret⟩ := htest
  have hreach : w.Reaches twoBlockDisk Op.Harmless :=
    Reachable.mono hw fun _ _ _ hs => ⟨hs.1.harmless, hs.2⟩
  obtain ⟨O, hO, hs, -⟩ := hreach.inv wellFormed_twoBlockDisk
  have hlive : w.server.view.Live O (.entry 3 0) := by
    have hentry : w.server.view.Live O (.entry (w.server.view.num .root (.direct 0)) 0) :=
      .entry .root hdir (show (0 : ℕ) < NDIRECT by decide) (by rw [hnum]; decide) (by decide)
        (.inl (by rw [hnum]; exact hnamed))
    rwa [hnum] at hentry
  refine ⟨O, w.server, hs, hlive, hm, hsize, hsecond, fun n hn hge => ?_, ?_⟩
  · rw [hsize] at hge
    have hge : 3 ≤ n := hge
    by_cases hd : n < NDIRECT
    · exact hdirect n hd hge
    · rw [Slot.of_index hd]
      exact num_index_eq_zero hind
  · obtain ⟨_, s', hrun, -⟩ := Outcome.returned_iff.mp hret
    exact ⟨s', hrun⟩

/-- **The file keeps its second block** when it is cut off to 4096 bytes. -/
theorem file_truncate_keeps_block : ∃ (O : Set FileRef) (s s' : Server) (f : FileRef),
    s.Sound O ∧ s.view.Live O f ∧ (s.cache f.block).isSome ∧
      (4096#32).toNat ≤ (s.view.field f F_SIZE).toNat ∧ s.view.Trimmed f ∧
      fileTruncate f 4096#32 s = .ok () s' ∧ ¬ Truncated f 4096#32 s.view s'.view := by
  obtain ⟨O, s, h⟩ := exists_cuttable
  obtain ⟨s', hrun⟩ := h.returns
  have hle : (4096#32).toNat ≤ (s.view.field (.entry 3 0) F_SIZE).toNat := by
    rw [h.size]
    decide
  refine ⟨O, s, s', .entry 3 0, h.sound, h.live, h.mapped, hle, h.trimmed, hrun, fun ht => ?_⟩
  have hbec := (h.sound.wp_fileTruncate (E := fun _ _ => False) h.live h.mapped 4096#32).of_ok hrun
  rw [hbec.view, h.sound.own.truncated_iff h.live hle h.trimmed] at ht
  have hsecond := (ht (by decide) (by decide)).1 (by decide)
  exact absurd (h.second.symm.trans hsecond) (by decide)

/-- The same file. -/
theorem file_truncate_iff_twoBlock : ∃ (s : Server) (f : FileRef),
    wp (fileTruncate f 4096#32) s
      (fun _ s' => Truncated f 4096#32 s.view s'.view ↔ s.view.EndsBefore f 4096#32)
      (fun _ _ => False) s.OutOfMemory := by
  obtain ⟨O, s, h⟩ := exists_cuttable
  refine ⟨s, .entry 3 0, file_truncate_iff h.sound h.live h.mapped ?_ h.trimmed⟩
  rw [h.size]
  decide

end MosRv.Fs
