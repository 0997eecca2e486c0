import MosRv.Fs.View

/-!
# Who owns a block

A `struct File` has slots for block numbers: ten direct ones, one for an indirect block, and those
in the indirect block.  `num v f sl` is the block in a slot, 0 if there is none.

A file is *live* if it is the root, or an entry, with a name or open, of a block of a live
directory. The open files `O` are those that a path was walked through: such a file may have been
removed since, but operations on it go on.  All blocks of a directory count, also those beyond its
size.

`Own` is the ownership invariant: what is in a slot of a live file is a block behind the bitmap, on
the disk and in use, and no block is in two slots.  `Parents` says that the pointer `f_dir` of an
open file is null or points to the directory it is an entry of, which is open too.

Every operation of the file system is a sequence of `Edit`s of the view.  They keep both invariants
(`Edit.own`, `Edit.parents`); an edit that puts a block to use as an indirect block, or as a block
of a directory, needs it to be empty.
-/

namespace MosRv.Fs

/-! ## Slots -/

inductive Slot
  | direct (i : ℕ)
  /-- The slot of the indirect block itself. -/
  | indirect
  | index (i : ℕ)
  deriving DecidableEq, Repr

namespace Slot

/-- The slot is one for data: block `i` of the file, which the index is in range for. -/
def Data : Slot → Prop
  | direct i => i < NDIRECT
  | indirect => False
  | index i => NDIRECT ≤ i ∧ i < NINDIRECT

/-- The slot is one of a file. -/
def Ok (sl : Slot) : Prop := sl = indirect ∨ sl.Data

/-- The slot for a block of a file. -/
def of (filebno : ℕ) : Slot := if filebno < NDIRECT then direct filebno else index filebno

lemma Data.ok {sl : Slot} (h : sl.Data) : sl.Ok := .inr h

lemma ok_indirect : indirect.Ok := .inl rfl

lemma Data.ne_indirect {sl : Slot} (h : sl.Data) : sl ≠ indirect := by
  rintro rfl
  exact h

lemma data_of {filebno : ℕ} (h : filebno < NINDIRECT) : (of filebno).Data := by
  rw [of]
  split_ifs with hd
  · exact hd
  · exact ⟨not_lt.mp hd, h⟩

lemma lt_of_data {filebno : ℕ} (h : (of filebno).Data) : filebno < NINDIRECT := by
  rw [of] at h
  split_ifs at h with hd
  · exact lt_trans hd (by decide)
  · exact h.2

end Slot

namespace View

/-- Word `k` of the `struct File`. -/
def field (v : View) (f : FileRef) (k : ℕ) : Word := v f.block (f.word + k)

/-- Where a slot is: the block and the word. -/
def slotAddr (v : View) (f : FileRef) : Slot → ℕ × ℕ
  | .direct i => (f.block, f.word + F_DIRECT + i)
  | .indirect => (f.block, f.word + F_INDIRECT)
  | .index i => ((v.field f F_INDIRECT).toNat, i)

/-- The block number in a slot. -/
def num (v : View) (f : FileRef) : Slot → ℕ
  | .direct i => (v.field f (F_DIRECT + i)).toNat
  | .indirect => (v.field f F_INDIRECT).toNat
  | .index i =>
      if v.field f F_INDIRECT = 0#32 then 0 else (v (v.field f F_INDIRECT).toNat i).toNat

/-- The slot exists: it is in the `struct File` or there is an indirect block. -/
def HasSlot (v : View) (f : FileRef) : Slot → Prop
  | .index _ => v.num f .indirect ≠ 0
  | _ => True

def IsDir (v : View) (f : FileRef) : Prop := v.field f F_TYPE = FTYPE_DIR

/-- The entry has a name. -/
def Named (v : View) (f : FileRef) : Prop := (v f.block).byte (4 * f.word) ≠ 0#8

/-- The file is the root, or an entry of a live directory. -/
inductive Live (O : Set FileRef) (v : View) : FileRef → Prop
  | root : v.Live O .root
  | entry {d : FileRef} {sl : Slot} {j : ℕ} (hd : v.Live O d) (hdir : v.IsDir d) (hsl : sl.Data)
      (hb : v.num d sl ≠ 0) (hj : j < FILE2BLK)
      (hn : v.Named (.entry (v.num d sl) j) ∨ .entry (v.num d sl) j ∈ O) :
      v.Live O (.entry (v.num d sl) j)

/-- **The ownership invariant.** -/
structure Own (O : Set FileRef) (v : View) : Prop where
  magic : v 1 S_MAGIC = FS_MAGIC
  small : v.nblocks ≤ MAXBLOCKS
  reserved : ∀ b, b < v.nblocks → v.Free b → v.lastReserved < b
  range : ∀ f sl, v.Live O f → sl.Ok → v.num f sl ≠ 0 →
    v.lastReserved < v.num f sl ∧ v.num f sl < v.nblocks ∧ ¬ v.Free (v.num f sl)
  inj : ∀ f sl g sl', v.Live O f → v.Live O g → sl.Ok → sl'.Ok → v.num f sl ≠ 0 →
    v.num f sl = v.num g sl' → f = g ∧ sl = sl'

/-- `f` is an entry of the directory `d`, which is the root or open. -/
structure Entry (O : Set FileRef) (v : View) (d f : FileRef) : Prop where
  known : d = .root ∨ d ∈ O
  live : v.Live O d
  isDir : v.IsDir d
  block : ∃ sl : Slot, sl.Data ∧ v.num d sl = f.block

/-- The pointers to the parents of the open files. -/
structure Parents (O : Set FileRef) (v : View) : Prop where
  root : v.field .root F_DIR = 0#32
  open_ : ∀ f ∈ O, v.Live O f → v.field f F_DIR ≠ 0#32 →
    ∃ d, v.Entry O d f ∧ v.field f F_DIR = d.addr

/-! ## Where the words are -/

section

variable {O : Set FileRef} {v v' : View} {f g : FileRef} {sl sl' : Slot}

/-- A live file is the root, or sits in a block of a directory. -/
lemma Live.cases_on_place (h : v.Live O f) :
    f = .root ∨ ∃ d sl j, v.Live O d ∧ v.IsDir d ∧ sl.Data ∧ v.num d sl ≠ 0 ∧ j < FILE2BLK ∧
      f = .entry (v.num d sl) j := by
  cases h with
  | root => exact .inl rfl
  | @entry d sl j hd hdir hsl hb hj hn => exact .inr ⟨d, sl, j, hd, hdir, hsl, hb, hj, rfl⟩

lemma two_le_lastReserved : 2 ≤ v.lastReserved := two_le_bitmapBlock

/-- The block of a live file is the super block or one behind the bitmap. -/
lemma Own.block_of_live (h : v.Own O) (hf : v.Live O f) :
    f.block = 1 ∨ v.lastReserved < f.block := by
  obtain rfl | ⟨d, sl, j, hd, -, hsl, hb, -, rfl⟩ := hf.cases_on_place
  · exact .inl rfl
  · exact .inr (h.range d sl hd hsl.ok hb).1

/-- Live files do not overlap. -/
lemma Own.disjoint (h : v.Own O) (hf : v.Live O f) (hg : v.Live O g) {k l : ℕ} (hk : k < 64)
    (hl : l < 64) (hblock : f.block = g.block) (hword : f.word + k = g.word + l) :
    f = g ∧ k = l := by
  obtain rfl | ⟨d, sl, j, hd, -, hsl, hb, -, rfl⟩ := hf.cases_on_place
  · obtain rfl | ⟨d', sl', j', hd', -, hsl', hb', -, rfl⟩ := hg.cases_on_place
    · exact ⟨rfl, by omega⟩
    · have := (h.range d' sl' hd' hsl'.ok hb').1
      have := @two_le_lastReserved v
      simp only [FileRef.root, FileRef.entry] at hblock
      omega
  · obtain rfl | ⟨d', sl', j', hd', -, hsl', hb', -, rfl⟩ := hg.cases_on_place
    · have := (h.range d sl hd hsl.ok hb).1
      have := @two_le_lastReserved v
      simp only [FileRef.root, FileRef.entry] at hblock
      omega
    · simp only [FileRef.entry] at hblock hword
      have hj : j = j' := by omega
      exact ⟨by rw [FileRef.entry, FileRef.entry, hblock, hj], by omega⟩

/-- No live file sits in an indirect block. -/
lemma Own.block_ne_indirect (h : v.Own O) (hf : v.Live O f) (hg : v.Live O g)
    (hind : v.num g .indirect ≠ 0) : f.block ≠ v.num g .indirect := by
  intro heq
  obtain rfl | ⟨d, sl, j, hd, -, hsl, hb, -, rfl⟩ := hf.cases_on_place
  · have hgt := (h.range g .indirect hg Slot.ok_indirect hind).1
    have h2 := @two_le_lastReserved v
    rw [← heq] at hgt
    change v.lastReserved < 1 at hgt
    omega
  · exact hsl.ne_indirect (h.inj d sl g .indirect hd hg hsl.ok Slot.ok_indirect hb heq).2

/-- The word of a slot that is in the `struct File`. -/
lemma slotAddr_inode (hsl : sl.Ok) (hne : ∀ i, sl ≠ .index i) :
    ∃ k, F_DIRECT ≤ k ∧ k ≤ F_INDIRECT ∧ (k = F_INDIRECT ↔ sl = .indirect) ∧
      (∀ i, sl = .direct i → k = F_DIRECT + i) ∧ v.slotAddr f sl = (f.block, f.word + k) := by
  cases sl with
  | direct i =>
      have hi : i < 10 := hsl.resolve_left nofun
      refine ⟨F_DIRECT + i, Nat.le_add_right _ _, ?_, ?_, ?_, ?_⟩
      · simp only [F_DIRECT, F_INDIRECT]
        omega
      · simp only [F_DIRECT, F_INDIRECT, reduceCtorEq, iff_false]
        omega
      · rintro _ ⟨⟩
        rfl
      · rw [slotAddr, Nat.add_assoc]
  | indirect => exact ⟨F_INDIRECT, by decide, le_rfl, by simp, nofun, rfl⟩
  | index i => exact absurd rfl (hne i)

/-- **Two slots are at two places.** -/
lemma Own.slotAddr_inj (h : v.Own O) (hf : v.Live O f) (hg : v.Live O g) (hsl : sl.Ok)
    (hsl' : sl'.Ok) (hhas : v.HasSlot f sl) (hhas' : v.HasSlot g sl')
    (heq : v.slotAddr f sl = v.slotAddr g sl') : f = g ∧ sl = sl' := by
  by_cases hi : ∃ i, sl = .index i
  · obtain ⟨i, rfl⟩ := hi
    by_cases hi' : ∃ i', sl' = .index i'
    · obtain ⟨i', rfl⟩ := hi'
      obtain ⟨hind, rfl⟩ := Prod.mk.inj heq
      exact ⟨(h.inj f .indirect g .indirect hf hg Slot.ok_indirect Slot.ok_indirect hhas hind).1,
        rfl⟩
    · obtain ⟨k, -, -, -, -, hk⟩ := slotAddr_inode (v := v) (f :=
        g) hsl' fun i => not_exists.mp hi' i
      exact absurd (Prod.mk.inj (hk ▸ heq)).1.symm (h.block_ne_indirect hg hf hhas)
  · obtain ⟨k, hk34, hk44, hind, hdir, hk⟩ :=
      slotAddr_inode (v := v) (f := f) hsl fun i => not_exists.mp hi i
    by_cases hi' : ∃ i', sl' = .index i'
    · obtain ⟨i', rfl⟩ := hi'
      exact absurd (Prod.mk.inj (hk ▸ heq)).1 (h.block_ne_indirect hf hg hhas')
    · obtain ⟨k', hk34', hk44', hind', hdir', hk'⟩ :=
        slotAddr_inode (v := v) (f := g) hsl' fun i => not_exists.mp hi' i
      rw [hk, hk'] at heq
      obtain ⟨hblock, hword⟩ := Prod.mk.inj heq
      simp only [F_DIRECT, F_INDIRECT] at hk34 hk44 hk34' hk44'
      obtain ⟨hfg, rfl⟩ := h.disjoint hf hg (k := k) (l := k') (by omega) (by omega) hblock hword
      refine ⟨hfg, ?_⟩
      cases sl with
      | indirect => exact (hind'.mp (hind.mpr rfl)).symm
      | index i => exact absurd ⟨i, rfl⟩ hi
      | direct i =>
          cases sl' with
          | indirect => exact hind.mp (hind'.mpr rfl)
          | index i' => exact absurd ⟨i', rfl⟩ hi'
          | direct i' =>
              have h₁ := hdir i rfl
              have h₂ := hdir' i' rfl
              congr 1
              omega

/-! ## The block numbers, as words -/

/-- The number in a slot is the word there. -/
lemma num_eq (hhas : v.HasSlot f sl) :
    v.num f sl = (v (v.slotAddr f sl).1 (v.slotAddr f sl).2).toNat := by
  cases sl with
  | direct i => rw [num, field, slotAddr, Nat.add_assoc]
  | indirect => rfl
  | index i =>
      rw [num, if_neg, slotAddr]
      intro h0
      exact hhas (by rw [num, h0]; rfl)

lemma num_of_not_hasSlot (hhas : ¬ v.HasSlot f sl) : v.num f sl = 0 := by
  cases sl with
  | direct i => exact absurd trivial hhas
  | indirect => exact absurd trivial hhas
  | index i =>
      rw [num, if_pos]
      have h0 : v.num f .indirect = 0 := not_not.mp hhas
      exact BitVec.eq_of_toNat_eq h0

lemma hasSlot_of_num_ne_zero (hne : v.num f sl ≠ 0) : v.HasSlot f sl := by
  by_contra hhas
  exact hne (num_of_not_hasSlot hhas)

/-! ## Views with the same files -/

/-- The words that say which files are live and what they own. -/
inductive Meta (O : Set FileRef) (v : View) : ℕ → ℕ → Prop
  | slot {f : FileRef} {sl : Slot} (hf : v.Live O f) (hsl : sl.Ok) (hhas : v.HasSlot f sl) :
      v.Meta O (v.slotAddr f sl).1 (v.slotAddr f sl).2
  | type {f : FileRef} (hf : v.Live O f) : v.Meta O f.block (f.word + F_TYPE)
  | name {d : FileRef} {sl : Slot} {j : ℕ} (hd : v.Live O d) (hdir : v.IsDir d) (hsl : sl.Data)
      (hb : v.num d sl ≠ 0) (hj : j < FILE2BLK) : v.Meta O (v.num d sl) (64 * j)

/-- These words are the same. -/
def Agree (O : Set FileRef) (v v' : View) : Prop := ∀ b i, v.Meta O b i → v' b i = v b i

/-- These words are not in the boot block and not in the bitmap. -/
lemma Own.meta_block (h : v.Own O) {b i : ℕ} (hm : v.Meta O b i) : b = 1 ∨ v.lastReserved < b := by
  cases hm with
  | @slot f sl hf hsl hhas =>
      cases sl with
      | direct i => exact h.block_of_live hf
      | indirect => exact h.block_of_live hf
      | index i => exact .inr (h.range f .indirect hf Slot.ok_indirect hhas).1
  | type hf => exact h.block_of_live hf
  | name hd hdir hsl hb hj => exact .inr (h.range _ _ hd hsl.ok hb).1

lemma Agree.num (h : Agree O v v') (hf : v.Live O f) (hsl : sl.Ok) : v'.num f sl = v.num f sl := by
  have hind : v'.field f F_INDIRECT = v.field f F_INDIRECT :=
    h _ _ (.slot hf Slot.ok_indirect trivial)
  cases sl with
  | direct i =>
      have hi := h _ _ (.slot hf hsl trivial)
      rw [View.num, View.num, field, field, ← Nat.add_assoc]
      exact congrArg BitVec.toNat hi
  | indirect => rw [View.num, View.num, hind]
  | index i =>
      rw [View.num, View.num, hind]
      by_cases h0 : v.field f F_INDIRECT = 0#32
      · rw [if_pos h0, if_pos h0]
      · rw [if_neg h0, if_neg h0]
        have hne : v.num f .indirect ≠ 0 := fun hz => h0 (BitVec.eq_of_toNat_eq hz)
        exact congrArg BitVec.toNat (h _ _ (@Meta.slot _ _ _ (.index i) hf hsl hne))

lemma Agree.isDir (h : Agree O v v') (hf : v.Live O f) : v'.IsDir f ↔ v.IsDir f := by
  rw [IsDir, IsDir, field, field, h _ _ (.type hf)]

/-- The name of an entry is empty or not by its first word. -/
lemma named_entry {b j : ℕ} : v.Named (.entry b j) ↔ Bits.byte (v b (64 * j)) 0 ≠ 0#8 := by
  have hdiv : 4 * (64 * j) / 4 = 64 * j := by omega
  have hmod : 4 * (64 * j) % 4 = 0 := by omega
  rw [Named, Block.byte, FileRef.entry, hdiv, hmod]

/-- The files that are live in a view with fewer blocks and names. -/
lemma live_of_fewer
    (hnum : ∀ d sl, v.Live O d → sl.Data → v'.num d sl ≠ 0 → v'.num d sl = v.num d sl)
    (hdir : ∀ d, v.Live O d → v'.IsDir d → v.IsDir d)
    (hname : ∀ d sl j, v.Live O d → v.IsDir d → sl.Data → v.num d sl ≠ 0 → j < FILE2BLK →
      v'.Named (.entry (v.num d sl) j) → v.Named (.entry (v.num d sl) j))
    (hf : v'.Live O f) : v.Live O f := by
  induction hf with
  | root => exact .root
  | @entry d sl j _ hdir' hsl hb hj hn ih =>
      have heq := hnum d sl ih hsl hb
      have hd := hdir d ih hdir'
      rw [heq] at hb hn ⊢
      exact .entry ih hd hsl hb hj (hn.imp_left (hname d sl j ih hd hsl hb hj))

lemma Agree.named (h : Agree O v v') {d : FileRef} {j : ℕ} (hd : v.Live O d) (hdir : v.IsDir d)
    (hsl : sl.Data) (hb : v.num d sl ≠ 0) (hj : j < FILE2BLK) :
    v'.Named (.entry (v.num d sl) j) ↔ v.Named (.entry (v.num d sl) j) := by
  rw [named_entry, named_entry, h _ _ (.name hd hdir hsl hb hj)]

/-- **Views that agree have the same live files.** -/
lemma Agree.live (h : Agree O v v') : v'.Live O f ↔ v.Live O f := by
  constructor
  · exact live_of_fewer (fun d sl hd hsl _ => h.num hd hsl.ok) (fun d hd => (h.isDir hd).mp)
      fun d sl j hd hdir hsl hb hj => (h.named hd hdir hsl hb hj).mp
  · intro hf
    induction hf with
    | root => exact .root
    | @entry d sl j hd hdir hsl hb hj hn ih =>
        have heq := h.num hd hsl.ok
        have hn' := hn.imp_left (h.named hd hdir hsl hb hj).mpr
        rw [← heq] at hb hn' ⊢
        exact .entry ih ((h.isDir hd).mpr hdir) hsl hb hj hn'

/-! ## Fewer files and blocks -/

/-- The view has the files of the other one, or fewer, with their blocks, or fewer. -/
structure Shrinks (O : Set FileRef) (v v' : View) : Prop where
  magic : v' 1 S_MAGIC = v 1 S_MAGIC
  nblocks : v'.nblocks = v.nblocks
  live : ∀ f, v'.Live O f → v.Live O f
  num : ∀ f sl, v'.Live O f → sl.Ok → v'.num f sl ≠ 0 → v'.num f sl = v.num f sl
  isDir : ∀ f, v'.Live O f → v.IsDir f → v'.IsDir f
  free : ∀ b, b < v.nblocks → v'.Free b → v.Free b ∨
    v.lastReserved < b ∧ ∀ f sl, v'.Live O f → sl.Ok → v'.num f sl ≠ b

lemma lastReserved_congr (h : v'.nblocks = v.nblocks) : v'.lastReserved = v.lastReserved := by
  rw [lastReserved, lastReserved, h]

lemma Own.shrink (h : v.Own O) (hs : Shrinks O v v') : v'.Own O where
  magic := hs.magic.trans h.magic
  small := hs.nblocks ▸ h.small
  reserved b hb hfree := by
    rw [lastReserved_congr hs.nblocks]
    rw [hs.nblocks] at hb
    exact (hs.free b hb hfree).elim (h.reserved b hb) And.left
  range f sl hf hsl hne := by
    have heq := hs.num f sl hf hsl hne
    obtain ⟨hgt, hlt, hused⟩ := h.range f sl (hs.live f hf) hsl (heq ▸ hne)
    rw [lastReserved_congr hs.nblocks, hs.nblocks, heq]
    refine ⟨hgt, hlt, fun hfree => ?_⟩
    rcases hs.free _ hlt hfree with hfree | ⟨-, hnot⟩
    · exact hused hfree
    · exact hnot f sl hf hsl heq
  inj f sl g sl' hf hg hsl hsl' hne heq := by
    have h₁ := hs.num f sl hf hsl hne
    have h₂ := hs.num g sl' hg hsl' (heq ▸ hne)
    exact h.inj f sl g sl' (hs.live f hf) (hs.live g hg) hsl hsl' (h₁ ▸ hne) (h₁ ▸ h₂ ▸ heq)

/-- The parents of the files that are left are left. -/
lemma Own.entry_shrink (h : v.Own O) (hs : Shrinks O v v') {d : FileRef} (hf : v'.Live O f)
    (hroot : f ≠ .root) (hd : v.Entry O d f) : v'.Entry O d f := by
  obtain rfl | ⟨d', sl, j, hd', hdir', hsl, hb, -, rfl⟩ := hf.cases_on_place
  · exact absurd rfl hroot
  · obtain ⟨sl', hsl', hnum'⟩ := hd.block
    have heq := hs.num d' sl hd' hsl.ok hb
    have hsame : v.num d' sl = v.num d sl' := heq.symm.trans hnum'.symm
    obtain ⟨rfl, rfl⟩ := h.inj d' sl d sl' (hs.live d' hd') hd.live hsl.ok hsl'.ok (heq ▸ hb) hsame
    exact ⟨hd.known, hd', hdir', sl, hsl, rfl⟩

lemma Parents.shrink (hp : v.Parents O) (h : v.Own O) (hs : Shrinks O v v')
    (hfield : ∀ f, v'.Live O f → v'.field f F_DIR = v.field f F_DIR) : v'.Parents O where
  root := (hfield _ .root).trans hp.root
  open_ f hf hlive hne := by
    rw [hfield f hlive] at hne ⊢
    obtain ⟨d, hd, haddr⟩ := hp.open_ f hf (hs.live f hlive) hne
    refine ⟨d, h.entry_shrink hs hlive ?_ hd, haddr⟩
    rintro rfl
    exact hne hp.root

/-- Views that agree own the same blocks. -/
lemma Agree.shrinks (h : Agree O v v') (hmagic : v' 1 S_MAGIC = v 1 S_MAGIC)
    (hn : v'.nblocks = v.nblocks)
    (hfree : ∀ b, b < v.nblocks → v'.Free b → v.Free b) : Shrinks O v v' where
  magic := hmagic
  nblocks := hn
  live _ := h.live.mp
  num _ _ hf hsl _ := h.num (h.live.mp hf) hsl
  isDir _ hf := (h.isDir (h.live.mp hf)).mpr
  free b hb hf := .inl (hfree b hb hf)

end

end View

end MosRv.Fs
