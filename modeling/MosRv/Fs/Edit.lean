import MosRv.Fs.Own

/-!
# The edits of a file system

What the operations of the file system do to the view, taken apart into edits: a free block is
taken, a block is put into an empty slot, the block of a slot is freed, a size, a name or a pointer
to the parent is stored, a client writes to a page of a regular file.

Each edit keeps the ownership invariant and the pointers to parents.  What each needs is in the
constructors of `Edit`.
-/

namespace MosRv.Fs

namespace View

section

variable {O : Set FileRef} {v v' : View} {f g : FileRef} {sl sl' : Slot}

/-! ## Which words carry ownership -/

lemma field_store {b i k : ℕ} {w : Word} (h : ¬ (f.block = b ∧ f.word + k = i)) :
    (v.store b i w).field f k = v.field f k := by
  rw [field, store_apply, if_neg h, field]

/-- The words of a block of a directory at which its entries start. -/
lemma Own.entry_start (h : v.Own O) (hf : v.Live O f) {d : FileRef} {j k : ℕ} (hd : v.Live O d)
    (hsl : sl.Data) (hb : v.num d sl ≠ 0) (hk : k < 64) (hblock : f.block = v.num d sl)
    (hword : f.word + k = 64 * j) : k = 0 ∧ f = .entry (v.num d sl) j := by
  obtain rfl | ⟨d', sl', j', -, -, -, -, -, rfl⟩ := hf.cases_on_place
  · have hgt := (h.range d sl hd hsl.ok hb).1
    have h2 := @two_le_lastReserved v
    change 1 = _ at hblock
    omega
  · simp only [FileRef.entry] at hblock hword
    have hj : j' = j := by omega
    subst hj
    exact ⟨by omega, by rw [FileRef.entry, FileRef.entry, hblock]⟩

/-- Of the words of a live file, the first, the type and the slots matter. -/
lemma Own.meta_of_field (h : v.Own O) (hf : v.Live O f) {k : ℕ} (hk : k < 64)
    (hm : v.Meta O f.block (f.word + k)) : k = 0 ∨ F_TYPE ≤ k ∧ k ≤ F_INDIRECT := by
  generalize hb : f.block = b at hm
  generalize hi : f.word + k = i at hm
  cases hm with
  | @slot g sl hg hsl hhas =>
      by_cases hx : ∃ i, sl = .index i
      · obtain ⟨i, rfl⟩ := hx
        exact absurd hb (h.block_ne_indirect hf hg hhas)
      · obtain ⟨l, hl34, hl44, -, -, hl⟩ :=
          slotAddr_inode (v := v) (f := g) hsl fun i => not_exists.mp hx i
        rw [hl] at hb hi
        simp only [F_DIRECT, F_INDIRECT] at hl34 hl44
        obtain ⟨-, rfl⟩ := h.disjoint hf hg hk (l := l) (by omega) hb hi
        right
        simp only [F_TYPE, F_INDIRECT]
        omega
  | @type g hg =>
      obtain ⟨-, rfl⟩ := h.disjoint hf hg hk (by decide) hb hi
      exact .inr ⟨le_rfl, by decide⟩
  | @name d sl j hd hdir hsl hne hj => exact .inl (h.entry_start hf hd hsl hne hk hb hi).1

/-- The blocks that these words are in are in use. -/
lemma Own.meta_used (h : v.Own O) {b i : ℕ} (hm : v.Meta O b i) :
    b = 1 ∨ v.lastReserved < b ∧ b < v.nblocks ∧ ¬ v.Free b := by
  have hlive : ∀ {f}, v.Live O f →
      f.block = 1 ∨ v.lastReserved < f.block ∧ f.block < v.nblocks ∧ ¬ v.Free f.block := by
    intro f hf
    obtain rfl | ⟨d, sl, j, hd, -, hsl, hb, -, rfl⟩ := hf.cases_on_place
    · exact .inl rfl
    · exact .inr (h.range d sl hd hsl.ok hb)
  cases hm with
  | @slot f sl hf hsl hhas =>
      cases sl with
      | direct i => exact hlive hf
      | indirect => exact hlive hf
      | index i => exact .inr (h.range f .indirect hf Slot.ok_indirect hhas)
  | type hf => exact hlive hf
  | name hd hdir hsl hb hj => exact .inr (h.range _ _ hd hsl.ok hb)

/-- A page of data holds none of them. -/
lemma Own.meta_ne_data (h : v.Own O) (hf : v.Live O f) (hreg : ¬ v.IsDir f) (hsl : sl.Data)
    (hne : v.num f sl ≠ 0) {b i : ℕ} (hm : v.Meta O b i) : b ≠ v.num f sl := by
  have hlive : ∀ {g}, v.Live O g → g.block ≠ v.num f sl := by
    intro g hg heq
    obtain rfl | ⟨d, sl', j, hd, hdir, hsl', hb, -, rfl⟩ := hg.cases_on_place
    · have hgt := (h.range f sl hf hsl.ok hne).1
      have h2 := @two_le_lastReserved v
      change 1 = _ at heq
      omega
    · obtain ⟨rfl, -⟩ := h.inj d sl' f sl hd hf hsl'.ok hsl.ok hb heq
      exact hreg hdir
  cases hm with
  | @slot g sl' hg hsl' hhas =>
      cases sl' with
      | direct i => exact hlive hg
      | indirect => exact hlive hg
      | index i =>
          intro heq
          exact hsl.ne_indirect
            (h.inj g .indirect f sl hg hf Slot.ok_indirect hsl.ok hhas heq).2.symm
  | type hg => exact hlive hg
  | @name d sl' j hd hdir hsl' hb hj =>
      intro heq
      obtain ⟨rfl, -⟩ := h.inj d sl' f sl hd hf hsl'.ok hsl.ok hb heq
      exact hreg hdir

/-! ## Edits that leave the slots alone -/

lemma free_congr (h : ∀ b, b ≤ v.lastReserved → 2 ≤ b → v' b = v b) {b : ℕ} (hb : b < v.nblocks) :
    v'.Free b ↔ v.Free b := by
  rw [Free, Free, h _ (bitmapBlock_le hb) two_le_bitmapBlock]

lemma Own.take_of_ne (h : v.Own O) {b c : ℕ} {z : Block} (hb : v.FirstFree b)
    (hc : c = 1 ∨ v.lastReserved < c ∧ c ≠ b) : v.take b z c = v c := by
  have hres := h.reserved b hb.lt hb.free
  have h2 := @two_le_lastReserved v
  have hbit := @two_le_bitmapBlock b
  have hbit' : bitmapBlock b ≤ v.lastReserved := bitmapBlock_le hb.lt
  rw [take, Function.update_of_ne (by omega), setUsed, store_of_ne _ _ _ _ (by omega)]

lemma Own.free_take (h : v.Own O) {b c : ℕ} {z : Block} (hb : v.FirstFree b) (hc : c < v.nblocks) :
    (v.take b z).Free c ↔ v.Free c ∧ c ≠ b := by
  have hres := h.reserved b hb.lt hb.free
  have hbit : bitmapBlock c ≤ v.lastReserved := bitmapBlock_le hc
  rw [← free_setUsed, Free, Free, take, Function.update_of_ne (by omega)]

/-- Taking a free block leaves the files alone. -/
lemma Own.agree_take (h : v.Own O) {b : ℕ} (hb : v.FirstFree b) (z : Block) :
    Agree O v (v.take b z) := by
  intro c i hm
  rw [h.take_of_ne hb]
  rcases h.meta_used hm with rfl | ⟨hgt, -, hused⟩
  · exact .inl rfl
  · refine .inr ⟨hgt, ?_⟩
    rintro rfl
    exact hused hb.free

lemma Own.nblocks_take (h : v.Own O) {b : ℕ} (hb : v.FirstFree b) (z : Block) :
    (v.take b z).nblocks = v.nblocks := by
  rw [View.nblocks, h.take_of_ne hb (.inl rfl), View.nblocks]

/-- A free block is taken. -/
lemma Own.shrinks_take (h : v.Own O) {b : ℕ} (hb : v.FirstFree b) (z : Block) :
    Shrinks O v (v.take b z) :=
  (h.agree_take hb z).shrinks (by rw [h.take_of_ne hb (.inl rfl)]) (h.nblocks_take hb z)
    fun _ hc hf => ((h.free_take hb hc).mp hf).1

/-- A client writes to a page of a regular file. -/
lemma Own.agree_data (h : v.Own O) (hf : v.Live O f) (hreg : ¬ v.IsDir f) (hsl : sl.Data)
    (hne : v.num f sl ≠ 0) (blk : Block) : Agree O v (Function.update v (v.num f sl) blk) := by
  intro c i hm
  rw [Function.update_of_ne (h.meta_ne_data hf hreg hsl hne hm)]

lemma Own.free_data (h : v.Own O) (hf : v.Live O f) (hsl : sl.Data) (hne : v.num f sl ≠ 0)
    (blk : Block) {b : ℕ} (hb : b < v.nblocks) :
    View.Free (Function.update v (v.num f sl) blk) b ↔ v.Free b := by
  have hgt := (h.range f sl hf hsl.ok hne).1
  refine free_congr (fun c hc _ => ?_) hb
  exact Function.update_of_ne (by omega) _ _

lemma Own.shrinks_data (h : v.Own O) (hf : v.Live O f) (hreg : ¬ v.IsDir f) (hsl : sl.Data)
    (hne : v.num f sl ≠ 0) (blk : Block) : Shrinks O v (Function.update v (v.num f sl) blk) := by
  have hgt := (h.range f sl hf hsl.ok hne).1
  have h2 := @two_le_lastReserved v
  have hone : Function.update v (v.num f sl) blk 1 = v 1 := Function.update_of_ne (by omega) _ _
  exact (h.agree_data hf hreg hsl hne blk).shrinks (by rw [hone])
    (by rw [View.nblocks, hone, View.nblocks]) fun b hb => (h.free_data hf hsl hne blk hb).mp

/-- The word is not in the bitmap, and not in the super block before the root. -/
def Plain (v : View) (b i : ℕ) : Prop := b = 1 ∧ 2 ≤ i ∨ v.lastReserved < b

lemma magic_store {b i : ℕ} {w : Word} (h : v.Plain b i) :
    v.store b i w 1 S_MAGIC = v 1 S_MAGIC := by
  have h2 := @two_le_lastReserved v
  rw [store_apply, if_neg]
  rintro ⟨rfl, hi⟩
  simp only [S_MAGIC] at hi
  rcases h with ⟨-, hi'⟩ | h <;> omega

lemma nblocks_store_plain {b i : ℕ} {w : Word} (h : v.Plain b i) :
    (v.store b i w).nblocks = v.nblocks := by
  have h2 := @two_le_lastReserved v
  rw [View.nblocks, store_apply, if_neg, View.nblocks]
  rintro ⟨rfl, hi⟩
  simp only [S_NBLOCKS] at hi
  rcases h with ⟨-, hi'⟩ | h <;> omega

lemma free_store {b i c : ℕ} {w : Word} (h : v.Plain b i) (hc : c < v.nblocks) :
    (v.store b i w).Free c ↔ v.Free c := by
  refine free_congr (fun d hd hd2 => ?_) hc
  refine store_of_ne _ _ _ _ ?_
  rcases h with ⟨rfl, -⟩ | h <;> omega

lemma Own.plain_field (h : v.Own O) (hf : v.Live O f) (k : ℕ) :
    v.Plain f.block (f.word + k) := by
  obtain rfl | ⟨d, sl, j, hd, -, hsl, hne, -, rfl⟩ := hf.cases_on_place
  · exact .inl ⟨rfl, Nat.le_add_right _ _⟩
  · exact .inr (h.range d sl hd hsl.ok hne).1

lemma Own.plain_slot (h : v.Own O) (hf : v.Live O f) (hsl : sl.Ok) (hhas : v.HasSlot f sl) :
    v.Plain (v.slotAddr f sl).1 (v.slotAddr f sl).2 := by
  cases sl with
  | direct i =>
      rw [slotAddr, Nat.add_assoc]
      exact h.plain_field hf _
  | indirect => exact h.plain_field hf _
  | index i => exact .inr (h.range f .indirect hf Slot.ok_indirect hhas).1

/-- A word of a live file is stored that is not its name, its type or a slot. -/
lemma Own.agree_field (h : v.Own O) (hf : v.Live O f) {k : ℕ} (hk : k < 64)
    (hk' : k ≠ 0 ∧ (k < F_TYPE ∨ F_INDIRECT < k)) (w : Word) :
    Agree O v (v.store f.block (f.word + k) w) := by
  intro c i hm
  rw [store_apply, if_neg]
  rintro ⟨rfl, rfl⟩
  rcases h.meta_of_field hf hk hm with h0 | hrange
  · exact hk'.1 h0
  · omega

lemma Own.shrinks_field (h : v.Own O) (hf : v.Live O f) {k : ℕ} (hk : k < 64)
    (hk' : k ≠ 0 ∧ (k < F_TYPE ∨ F_INDIRECT < k)) (w : Word) :
    Shrinks O v (v.store f.block (f.word + k) w) := by
  have hplain := h.plain_field hf k
  exact (h.agree_field hf hk hk' w).shrinks (magic_store hplain) (nblocks_store_plain hplain)
    fun b hb => (free_store hplain hb).mp

/-! ## A name is cleared -/

/-- `f_name[0] = '\0'`. -/
def clearName (v : View) (f : FileRef) : View :=
  v.store f.block f.word (Bits.setByte (v f.block f.word) 0 0#8)

lemma byte_setByte_zero (w : Word) : Bits.byte (Bits.setByte w 0 0#8) 0 = 0#8 := by
  rw [Bits.byte_setByte w 0#8 (by decide) (by decide), if_pos rfl]

/-- What is in a slot does not change when a word is stored elsewhere. -/
lemma num_store {b i : ℕ} {w : Word} (hslot : v.HasSlot g sl → v.slotAddr g sl ≠ (b, i))
    (hind : (∃ k, sl = .index k) → v.slotAddr g .indirect ≠ (b, i)) :
    (v.store b i w).num g sl = v.num g sl := by
  cases sl with
  | direct k =>
      rw [View.num, View.num, field_store]
      rintro ⟨hb, hi⟩
      refine hslot trivial (Prod.ext hb ?_)
      rw [slotAddr, Nat.add_assoc]
      exact hi
  | indirect =>
      rw [View.num, View.num, field_store]
      exact fun hc => hslot trivial (Prod.ext hc.1 hc.2)
  | index k =>
      have hfield : (v.store b i w).field g F_INDIRECT = v.field g F_INDIRECT :=
        field_store fun hc => hind ⟨k, rfl⟩ (Prod.ext hc.1 hc.2)
      rw [View.num, View.num, hfield]
      by_cases h0 : v.field g F_INDIRECT = 0#32
      · rw [if_pos h0, if_pos h0]
      · rw [if_neg h0, if_neg h0, store_apply, if_neg]
        rintro ⟨hb, hi⟩
        exact hslot (fun hz => h0 (BitVec.eq_of_toNat_eq hz)) (Prod.ext hb hi)

/-- A slot is in the `struct File` or in the indirect block. -/
lemma slot_place (hsl : sl.Ok) :
    (∃ k, F_DIRECT ≤ k ∧ k ≤ F_INDIRECT ∧ v.slotAddr f sl = (f.block, f.word + k)) ∨
      ∃ i, sl = .index i ∧ v.slotAddr f sl = (v.num f .indirect, i) := by
  by_cases hx : ∃ i, sl = .index i
  · obtain ⟨i, rfl⟩ := hx
    exact .inr ⟨i, rfl, rfl⟩
  · obtain ⟨k, h34, h44, -, -, hk⟩ :=
      slotAddr_inode (v := v) (f := f) hsl fun i => not_exists.mp hx i
    exact .inl ⟨k, h34, h44, hk⟩

/-- A slot is none of the other words of a live file. -/
lemma Own.slot_ne_field (h : v.Own O) (hf : v.Live O f) (hg : v.Live O g) (hsl : sl.Ok)
    (hhas : v.HasSlot f sl) {k : ℕ} (hk : k < 64) (hk' : k < F_DIRECT ∨ F_INDIRECT < k) :
    v.slotAddr f sl ≠ (g.block, g.word + k) := by
  intro heq
  rcases slot_place (v := v) (f := f) hsl with ⟨l, h34, h44, hl⟩ | ⟨i, rfl, hl⟩
  · rw [hl] at heq
    obtain ⟨hb, hw⟩ := Prod.mk.inj heq
    have hlt : l < 64 := lt_of_le_of_lt h44 (by decide)
    have := (h.disjoint hf hg hlt hk hb hw).2
    omega
  · rw [hl] at heq
    exact h.block_ne_indirect hg hf hhas (Prod.mk.inj heq).1.symm

/-- A slot is not where an entry of a directory starts. -/
lemma Own.slot_ne_name (h : v.Own O) (hf : v.Live O f) (hsl : sl.Ok) (hhas : v.HasSlot f sl)
    {d : FileRef} {j : ℕ} (hd : v.Live O d) (hsl' : sl'.Data) (hne : v.num d sl' ≠ 0) :
    v.slotAddr f sl ≠ (v.num d sl', 64 * j) := by
  intro heq
  rcases slot_place (v := v) (f := f) hsl with ⟨l, h34, h44, hl⟩ | ⟨i, rfl, hl⟩
  · rw [hl] at heq
    obtain ⟨hb, hw⟩ := Prod.mk.inj heq
    have hlt : l < 64 := lt_of_le_of_lt h44 (by decide)
    obtain ⟨rfl, -⟩ := h.entry_start hf hd hsl' hne hlt hb hw
    exact absurd h34 (by decide)
  · rw [hl] at heq
    exact hsl'.ne_indirect (h.inj d sl' f .indirect hd hf hsl'.ok Slot.ok_indirect hne
      (Prod.mk.inj heq).1.symm).2

lemma Own.num_clearName (h : v.Own O) (hf : v.Live O f) (hg : v.Live O g) (hsl : sl.Ok) :
    (v.clearName f).num g sl = v.num g sl := by
  have hnotSlot : ∀ sl', sl'.Ok → v.HasSlot g sl' → v.slotAddr g sl' ≠ (f.block, f.word) :=
    fun sl' hsl' hhas => h.slot_ne_field hg hf hsl' hhas (k := 0) (by decide) (by decide)
  exact num_store (hnotSlot sl hsl) fun _ => hnotSlot .indirect Slot.ok_indirect trivial

lemma Own.isDir_clearName (h : v.Own O) (hf : v.Live O f) (hg : v.Live O g) :
    (v.clearName f).IsDir g ↔ v.IsDir g := by
  rw [IsDir, IsDir, clearName, field_store]
  rintro ⟨hb, hw⟩
  have := (h.disjoint hg hf (k := F_TYPE) (l := 0) (by decide) (by decide) hb hw).2
  exact absurd this (by decide)

lemma Own.shrinks_clearName (h : v.Own O) (hf : v.Live O f) : Shrinks O v (v.clearName f) := by
  have hplain : v.Plain f.block f.word := h.plain_field hf 0
  have hlive : ∀ g, (v.clearName f).Live O g → v.Live O g := by
    intro g
    refine live_of_fewer (fun d sl hd hsl _ => h.num_clearName hf hd hsl.ok)
      (fun d hd => (h.isDir_clearName hf hd).mp) ?_
    intro d sl j hd hdir hsl hb hj hn
    rw [named_entry] at hn ⊢
    rw [clearName, store_apply] at hn
    split_ifs at hn with hc
    · exact absurd (byte_setByte_zero _) hn
    · exact hn
  exact ⟨magic_store hplain, nblocks_store_plain hplain, hlive,
    fun g sl' hg hsl' _ => h.num_clearName hf (hlive g hg) hsl',
    fun g hg => (h.isDir_clearName hf (hlive g hg)).mpr,
    fun b hb hf => .inl ((free_store hplain hb).mp hf)⟩

/-- An open file stays live without its name, and so do the others. -/
lemma Own.live_clearName (h : v.Own O) (hf : v.Live O f) (hO : f = .root ∨ f ∈ O)
    (hg : v.Live O g) : (v.clearName f).Live O g := by
  induction hg with
  | root => exact .root
  | @entry d sl j hd hdir hsl hb hj hn ih =>
      have heq := h.num_clearName hf hd hsl.ok
      have hn' : (v.clearName f).Named (.entry (v.num d sl) j) ∨
          FileRef.entry (v.num d sl) j ∈ O := by
        by_cases hc : v.num d sl = f.block ∧ 64 * j = f.word
        · have hentry : FileRef.entry (v.num d sl) j = f := by
            rw [FileRef.entry, hc.1, hc.2]
          rcases hO with rfl | hO
          · have hgt := (h.range d sl hd hsl.ok hb).1
            have h2 := @two_le_lastReserved v
            have h1 : v.num d sl = 1 := hc.1
            omega
          · exact .inr (hentry ▸ hO)
        · rwa [named_entry, clearName, store_apply, if_neg hc, ← named_entry]
      rw [← heq] at hb hn' ⊢
      exact .entry ih ((h.isDir_clearName hf hd).mpr hdir) hsl hb hj hn'

/-! ## A slot is emptied -/

/-- A word is stored into a slot. -/
def setSlot (v : View) (f : FileRef) (sl : Slot) (b : ℕ) : View :=
  v.store (v.slotAddr f sl).1 (v.slotAddr f sl).2 (BitVec.ofNat 32 b)

/-- The other slots keep their blocks; but the slots in an indirect block go where that block
goes. -/
lemma Own.num_setSlot_of_ne (h : v.Own O) (hf : v.Live O f) (hg : v.Live O g) (hsl : sl.Ok)
    (hsl' : sl'.Ok) (hhas : v.HasSlot f sl) {b : ℕ} (hne : ¬ (f = g ∧ sl = sl'))
    (hind : ¬ (sl = .indirect ∧ f = g ∧ ∃ i, sl' = .index i)) :
    (v.setSlot f sl b).num g sl' = v.num g sl' := by
  refine num_store (fun hhas' heq => ?_) fun hx heq => ?_
  · obtain ⟨rfl, rfl⟩ := h.slotAddr_inj hg hf hsl' hsl hhas' hhas heq
    exact hne ⟨rfl, rfl⟩
  · obtain ⟨rfl, rfl⟩ := h.slotAddr_inj hg hf Slot.ok_indirect hsl trivial hhas heq
    exact hind ⟨rfl, rfl, hx⟩

lemma Own.isDir_setSlot (h : v.Own O) (hf : v.Live O f) (hg : v.Live O g) (hsl : sl.Ok)
    (hhas : v.HasSlot f sl) {b : ℕ} : (v.setSlot f sl b).IsDir g ↔ v.IsDir g := by
  rw [IsDir, IsDir, setSlot, field_store]
  rintro ⟨hb, hw⟩
  exact h.slot_ne_field hf hg hsl hhas (k := F_TYPE) (by decide) (by decide)
    (Prod.ext hb.symm hw.symm)

lemma Own.named_setSlot (h : v.Own O) (hf : v.Live O f) (hsl : sl.Ok) (hhas : v.HasSlot f sl)
    {b j : ℕ} {d : FileRef} (hd : v.Live O d) (hsl' : sl'.Data) (hne : v.num d sl' ≠ 0) :
    (v.setSlot f sl b).Named (.entry (v.num d sl') j) ↔ v.Named (.entry (v.num d sl') j) := by
  rw [named_entry, named_entry, setSlot, store_apply, if_neg]
  rintro ⟨hb, hw⟩
  exact h.slot_ne_name hf hsl hhas hd hsl' hne (j := j) (Prod.ext hb.symm hw.symm)

/-- What is in the slot afterwards. -/
lemma Own.num_setSlot (h : v.Own O) (hf : v.Live O f) (hsl : sl.Ok) (hhas : v.HasSlot f sl) {b : ℕ}
    (hb : b < 2 ^ 32) : (v.setSlot f sl b).num f sl = b := by
  have hword : (v.setSlot f sl b) (v.slotAddr f sl).1 (v.slotAddr f sl).2 = BitVec.ofNat 32 b := by
    rw [setSlot, store_apply, if_pos ⟨rfl, rfl⟩]
  have hto : (BitVec.ofNat 32 b).toNat = b := by
    rw [BitVec.toNat_ofNat, Nat.mod_eq_of_lt hb]
  cases sl with
  | direct i =>
      rw [num, field, ← Nat.add_assoc]
      exact (congrArg BitVec.toNat hword).trans hto
  | indirect => exact (congrArg BitVec.toNat hword).trans hto
  | index i =>
      have hind : (v.setSlot f (.index i) b).num f .indirect = v.num f .indirect :=
        h.num_setSlot_of_ne hf hf hsl Slot.ok_indirect hhas (by simp) (by simp)
      have haddr : (v.setSlot f (.index i) b).slotAddr f (.index i) = v.slotAddr f (.index i) :=
        Prod.ext hind rfl
      have hhas' : (v.setSlot f (.index i) b).HasSlot f (.index i) :=
        fun hz => hhas (hind.symm.trans hz)
      rw [num_eq hhas', haddr]
      exact (congrArg BitVec.toNat hword).trans hto

/-- Slots in an indirect block that is gone. -/
lemma num_index_eq_zero {i : ℕ} (h : v.num f .indirect = 0) : v.num f (.index i) = 0 :=
  num_of_not_hasSlot fun hhas => hhas h

/-- An emptied slot: the others have their blocks or none. -/
lemma Own.num_emptied (h : v.Own O) (hf : v.Live O f) (hg : v.Live O g) (hsl : sl.Ok)
    (hsl' : sl'.Ok) (hhas : v.HasSlot f sl) (hne : (v.setSlot f sl 0).num g sl' ≠ 0) :
    (v.setSlot f sl 0).num g sl' = v.num g sl' ∧ ¬ (f = g ∧ sl = sl') := by
  have hnot : ¬ (f = g ∧ sl = sl') := by
    rintro ⟨rfl, rfl⟩
    exact hne (h.num_setSlot hf hsl hhas (by decide))
  refine ⟨h.num_setSlot_of_ne hf hg hsl hsl' hhas hnot ?_, hnot⟩
  rintro ⟨rfl, rfl, i, rfl⟩
  exact hne (num_index_eq_zero (h.num_setSlot hf hsl trivial (by decide)))

lemma Own.shrinks_emptied (h : v.Own O) (hf : v.Live O f) (hsl : sl.Ok) (hhas : v.HasSlot f sl) :
    Shrinks O v (v.setSlot f sl 0) := by
  have hplain := h.plain_slot hf hsl hhas
  have hlive : ∀ g, (v.setSlot f sl 0).Live O g → v.Live O g := by
    intro g
    exact live_of_fewer (fun d sl' hd hsl' hne => (h.num_emptied hf hd hsl hsl'.ok hhas hne).1)
      (fun d hd => (h.isDir_setSlot hf hd hsl hhas).mp)
      fun d sl' j hd _ hsl' hb _ => (h.named_setSlot hf hsl hhas hd hsl' hb).mp
  exact ⟨magic_store hplain, nblocks_store_plain hplain, hlive,
    fun g sl' hg hsl' hne => (h.num_emptied hf (hlive g hg) hsl hsl' hhas hne).1,
    fun g hg => (h.isDir_setSlot hf (hlive g hg) hsl hhas).mpr,
    fun b hb hfree => .inl ((free_store hplain hb).mp hfree)⟩

lemma Own.agree_setFree (h : v.Own O) {b : ℕ} (hlt : b < v.nblocks) : Agree O v (v.setFree b) := by
  intro c i hm
  have hbit := @two_le_bitmapBlock b
  have hbit' : bitmapBlock b ≤ v.lastReserved := bitmapBlock_le hlt
  have hc : c ≠ bitmapBlock b := by
    rcases h.meta_block hm with rfl | hgt <;> omega
  rw [setFree, store_of_ne _ _ _ _ hc]

/-- A block behind the bitmap that nobody owns is freed. -/
lemma Own.shrinks_setFree (h : v.Own O) {b : ℕ} (hgt : v.lastReserved < b) (hlt : b < v.nblocks)
    (hno : ∀ f sl, v.Live O f → sl.Ok → v.num f sl ≠ b) : Shrinks O v (v.setFree b) := by
  have hbit := @two_le_bitmapBlock b
  have hagree := h.agree_setFree hlt
  have hone : v.setFree b 1 = v 1 := by
    rw [setFree, store_of_ne _ _ _ _ (by omega)]
  refine ⟨by rw [hone], nblocks_setFree, fun g => hagree.live.mp,
    fun g sl hg hsl _ => hagree.num (hagree.live.mp hg) hsl,
    fun g hg => (hagree.isDir (hagree.live.mp hg)).mpr, fun c hc hfree => ?_⟩
  rcases (free_setFree v b c).mp hfree with hfree | rfl
  · exact .inl hfree
  · refine .inr ⟨hgt, fun f sl hf hsl => ?_⟩
    rw [hagree.num (hagree.live.mp hf) hsl]
    exact hno f sl (hagree.live.mp hf) hsl

lemma Shrinks.trans {v'' : View} (h : Shrinks O v v') (h' : Shrinks O v' v'') :
    Shrinks O v v'' where
  magic := h'.magic.trans h.magic
  nblocks := h'.nblocks.trans h.nblocks
  live f hf := h.live f (h'.live f hf)
  num f sl hf hsl hne := by
    have heq := h'.num f sl hf hsl hne
    rw [heq]
    exact h.num f sl (h'.live f hf) hsl (heq ▸ hne)
  isDir f hf hdir := h'.isDir f hf (h.isDir f (h'.live f hf) hdir)
  free b hb hfree := by
    rcases h'.free b (h.nblocks ▸ hb) hfree with hfree | ⟨hgt, hno⟩
    · rcases h.free b hb hfree with hfree | ⟨hgt, hno⟩
      · exact .inl hfree
      · refine .inr ⟨hgt, fun f sl hf hsl heq => ?_⟩
        by_cases h0 : v''.num f sl = 0
        · omega
        · exact hno f sl (h'.live f hf) hsl ((h'.num f sl hf hsl h0).symm.trans heq)
    · exact .inr ⟨lastReserved_congr h.nblocks ▸ hgt, hno⟩

lemma store_comm {b b' i i' : ℕ} {w w' : Word} (v : View) (h : b ≠ b') :
    (v.store b i w).store b' i' w' = (v.store b' i' w').store b i w := by
  rw [store, store_of_ne _ _ _ _ h.symm, store, store, store_of_ne _ _ _ _ h, store]
  exact Function.update_comm h _ _ _

/-- The block of a slot is freed and the slot emptied. -/
def unlink (v : View) (f : FileRef) (sl : Slot) : View := (v.setSlot f sl 0).setFree (v.num f sl)

lemma Own.shrinks_unlink (h : v.Own O) (hf : v.Live O f) (hsl : sl.Ok) (hne : v.num f sl ≠ 0) :
    Shrinks O v (v.unlink f sl) := by
  have hhas := hasSlot_of_num_ne_zero hne
  have hs := h.shrinks_emptied hf hsl hhas
  obtain ⟨hgt, hlt, -⟩ := h.range f sl hf hsl hne
  refine hs.trans ((h.shrink hs).shrinks_setFree ?_ ?_ fun g sl' hg hsl' heq => ?_)
  · rw [lastReserved_congr hs.nblocks]
    exact hgt
  · rw [hs.nblocks]
    exact hlt
  · have hne' : (v.setSlot f sl 0).num g sl' ≠ 0 := heq ▸ hne
    obtain ⟨hsame, hnot⟩ := h.num_emptied hf (hs.live g hg) hsl hsl' hhas hne'
    exact hnot (h.inj f sl g sl' hf (hs.live g hg) hsl hsl' hne (heq.symm.trans hsame))

/-- `free_block` first and the slot then, as the source has it. -/
lemma Own.unlink_eq (h : v.Own O) (hf : v.Live O f) (hsl : sl.Ok) (hne : v.num f sl ≠ 0) :
    (v.setFree (v.num f sl)).store (v.slotAddr f sl).1 (v.slotAddr f sl).2 0#32 =
    v.unlink f sl := by
  have hhas := hasSlot_of_num_ne_zero hne
  have hlt := (h.range f sl hf hsl hne).2.1
  have hb : (v.slotAddr f sl).1 ≠ bitmapBlock (v.num f sl) := by
    have h₁ := @two_le_bitmapBlock (v.num f sl)
    have h₂ : bitmapBlock (v.num f sl) ≤ v.lastReserved := bitmapBlock_le hlt
    rcases h.plain_slot hf hsl hhas with ⟨h₃, -⟩ | h₃ <;> omega
  have hword : v.setSlot f sl 0 (bitmapBlock (v.num f sl)) = v (bitmapBlock (v.num f sl)) :=
    store_of_ne _ _ _ _ hb.symm
  rw [unlink, setFree, setFree, hword, setSlot]
  exact store_comm _ hb.symm

/-! ## A block is put into a slot -/

/-- A block that can be put into an empty slot, whatever it holds. -/
structure Insertable (O : Set FileRef) (v : View) (f : FileRef) (sl : Slot) (b : ℕ) : Prop where
  live : v.Live O f
  ok : sl.Ok
  hasSlot : v.HasSlot f sl
  empty : v.num f sl = 0
  gt : v.lastReserved < b
  lt : b < v.nblocks
  used : ¬ v.Free b
  fresh : ∀ g sl', v.Live O g → sl'.Ok → v.num g sl' ≠ b

/-- **What a block must hold to be put into a slot**: an indirect block nothing, and a block of a
directory no entry that would come to be seen and has blocks. -/
structure Linkable (O : Set FileRef) (v : View) (f : FileRef) (sl : Slot) (b : ℕ) : Prop
    extends Insertable O v f sl b where
  clean : sl = .indirect → v b = Block.zero
  idle : v.IsDir f → ∀ j < FILE2BLK, v.Named (.entry b j) ∨ .entry b j ∈ O →
    ¬ v.IsDir (.entry b j) ∧ ∀ sl', sl'.Ok → v.num (.entry b j) sl' = 0
  parent : v.IsDir f → ∀ j, .entry b j ∈ O → v.field (.entry b j) F_DIR = 0#32

section Link

variable {b : ℕ}

lemma Insertable.lt_word (hl : Insertable O v f sl b) (h : v.Own O) : b < 2 ^ 32 := by
  have h₁ := hl.lt
  have h₂ := h.small
  simp only [MAXBLOCKS] at h₂
  omega

lemma Insertable.page (hl : Insertable O v f sl b) : v.setSlot f sl b b = v b := by
  refine store_of_ne _ _ _ _ fun heq => ?_
  have hne : b ≠ 1 := by
    have := @two_le_lastReserved v
    have := hl.gt
    omega
  rcases slot_place (v := v) (f := f) hl.ok with ⟨k, -, -, hk⟩ | ⟨i, rfl, hk⟩
  · rw [hk] at heq
    obtain rfl | ⟨d, sl', j, hd, -, hsl', -, -, rfl⟩ := hl.live.cases_on_place
    · exact hne heq
    · exact hl.fresh d sl' hd hsl'.ok heq.symm
  · rw [hk] at heq
    exact hl.fresh f .indirect hl.live Slot.ok_indirect heq.symm

/-- The blocks of the files that were live. -/
lemma Linkable.num (hl : Linkable O v f sl b) (h : v.Own O) (hg : v.Live O g) (hsl' : sl'.Ok)
    (hne : (v.setSlot f sl b).num g sl' ≠ 0) :
    (f = g ∧ sl = sl') ∧ (v.setSlot f sl b).num g sl' = b ∨
      (v.setSlot f sl b).num g sl' = v.num g sl' := by
  by_cases hsame : f = g ∧ sl = sl'
  · obtain ⟨rfl, rfl⟩ := hsame
    exact .inl ⟨⟨rfl, rfl⟩, h.num_setSlot hl.live hl.ok hl.hasSlot (hl.lt_word h)⟩
  · refine .inr (h.num_setSlot_of_ne hl.live hg hl.ok hsl' hl.hasSlot hsame ?_)
    -- a new indirect block is empty
    rintro ⟨rfl, rfl, i, rfl⟩
    have hind := h.num_setSlot hl.live hl.ok hl.hasSlot (hl.lt_word h)
    refine hne ?_
    have hhas := hasSlot_of_num_ne_zero hne
    rw [num_eq hhas]
    have haddr : (v.setSlot f .indirect b).slotAddr f (.index i) = (b, i) := Prod.ext hind rfl
    rw [haddr, hl.page, hl.clean rfl]
    rfl

/-- What was in a slot stays there. -/
lemma Insertable.num_of_ne_zero (hl : Insertable O v f sl b) (h : v.Own O) (hg : v.Live O g)
    (hsl' : sl'.Ok) (hne : v.num g sl' ≠ 0) : (v.setSlot f sl b).num g sl' = v.num g sl' := by
  refine h.num_setSlot_of_ne hl.live hg hl.ok hsl' hl.hasSlot ?_ ?_
  · rintro ⟨rfl, rfl⟩
    exact hne hl.empty
  · rintro ⟨rfl, rfl, i, rfl⟩
    exact hne (num_index_eq_zero hl.empty)

lemma Insertable.live_mono (hl : Insertable O v f sl b) (h : v.Own O) (hg : v.Live O g) :
    (v.setSlot f sl b).Live O g := by
  induction hg with
  | root => exact .root
  | @entry d sl' j hd hdir hsl' hb hj hn ih =>
      have heq := hl.num_of_ne_zero h hd hsl'.ok hb
      have hn' := hn.imp_left (h.named_setSlot hl.live hl.ok hl.hasSlot (b := b) hd hsl' hb).mpr
      rw [← heq] at hb hn' ⊢
      exact .entry ih ((h.isDir_setSlot hl.live hd hl.ok hl.hasSlot).mpr hdir) hsl' hb hj hn'

/-- An entry of the new block is what it was. -/
lemma Insertable.isDir_entry (hl : Insertable O v f sl b) {j : ℕ} :
    (v.setSlot f sl b).IsDir (.entry b j) ↔ v.IsDir (.entry b j) := by
  rw [IsDir, IsDir, View.field, View.field, FileRef.entry, hl.page]

/-- The files that come to be live are entries of the new block. -/
lemma Linkable.live_or_new (hl : Linkable O v f sl b) (h : v.Own O)
    (hg : (v.setSlot f sl b).Live O g) :
    v.Live O g ∨ v.IsDir f ∧
      ∃ j < FILE2BLK, g = .entry b j ∧ (v.Named (.entry b j) ∨ .entry b j ∈ O) := by
  induction hg with
  | root => exact .inl .root
  | @entry d sl' j _ hdir' hsl' hb hj hn ih =>
      rcases ih with hd | ⟨hdir, j', hj', rfl, hseen⟩
      · have hdir := (h.isDir_setSlot hl.live hd hl.ok hl.hasSlot).mp hdir'
        rcases hl.num h hd hsl'.ok hb with ⟨⟨rfl, rfl⟩, heq⟩ | heq
        · rw [heq] at hn ⊢
          refine .inr ⟨hdir, j, hj, rfl, hn.imp_left fun hnamed => ?_⟩
          rwa [named_entry, hl.page, ← named_entry] at hnamed
        · left
          rw [heq] at hb hn ⊢
          exact .entry hd hdir hsl' hb hj
            (hn.imp_left (h.named_setSlot hl.live hl.ok hl.hasSlot hd hsl' hb).mp)
      · exact absurd (hl.isDir_entry.mp hdir') (hl.idle hdir j' hj' hseen).1

/-- An entry of the new block has the blocks that it had. -/
lemma Insertable.num_entry (hl : Insertable O v f sl b) {j : ℕ}
    (hzero : ∀ sl', sl'.Ok → v.num (.entry b j) sl' = 0) (hsl' : sl'.Ok) :
    (v.setSlot f sl b).num (.entry b j) sl' = 0 := by
  have hfield : ∀ k, (v.setSlot f sl b).field (.entry b j) k = v.field (.entry b j) k := by
    intro k
    rw [View.field, View.field, FileRef.entry, hl.page]
  have hind : (v.setSlot f sl b).num (.entry b j) .indirect = 0 := by
    rw [View.num, hfield]
    exact hzero .indirect Slot.ok_indirect
  cases sl' with
  | direct i =>
      rw [View.num, hfield]
      exact hzero (.direct i) hsl'
  | indirect => exact hind
  | index i => exact num_index_eq_zero hind

/-- **A new block in a slot keeps the ownership invariant.** -/
lemma Own.link (h : v.Own O) (hl : Linkable O v f sl b) : (v.setSlot f sl b).Own O := by
  have hplain := h.plain_slot hl.live hl.ok hl.hasSlot
  have hn : (v.setSlot f sl b).nblocks = v.nblocks := nblocks_store_plain hplain
  -- a file with a block was live before
  have hold : ∀ g sl', (v.setSlot f sl b).Live O g → sl'.Ok →
      (v.setSlot f sl b).num g sl' ≠ 0 → v.Live O g := by
    intro g sl' hg hsl' hne
    rcases hl.live_or_new h hg with hg | ⟨hdir, j, hj, rfl, hseen⟩
    · exact hg
    · exact absurd (hl.num_entry (hl.idle hdir j hj hseen).2 hsl') hne
  refine ⟨(magic_store hplain).trans h.magic, hn ▸ h.small, fun c hc hfree => ?_,
    fun g sl' hg hsl' hne => ?_, fun g sl₁ g' sl₂ hg hg' hsl₁ hsl₂ hne heq => ?_⟩
  · rw [hn] at hc
    rw [lastReserved_congr hn]
    exact h.reserved c hc ((free_store hplain hc).mp hfree)
  · have hg₀ := hold g sl' hg hsl' hne
    rw [lastReserved_congr hn, hn]
    rcases hl.num h hg₀ hsl' hne with ⟨-, heq⟩ | heq
    · rw [heq]
      exact ⟨hl.gt, hl.lt, fun hfree => hl.used ((free_store hplain hl.lt).mp hfree)⟩
    · rw [heq] at hne ⊢
      obtain ⟨hgt, hlt, hused⟩ := h.range g sl' hg₀ hsl' hne
      exact ⟨hgt, hlt, fun hfree => hused ((free_store hplain hlt).mp hfree)⟩
  · have hg₀ := hold g sl₁ hg hsl₁ hne
    have hg₀' := hold g' sl₂ hg' hsl₂ (heq ▸ hne)
    rcases hl.num h hg₀ hsl₁ hne with ⟨⟨rfl, rfl⟩, h₁⟩ | h₁
    · rcases hl.num h hg₀' hsl₂ (heq ▸ hne) with ⟨hsame, -⟩ | h₂
      · exact hsame
      · exact absurd (h₂.symm.trans (heq.symm.trans h₁)) (hl.fresh g' sl₂ hg₀' hsl₂)
    · rcases hl.num h hg₀' hsl₂ (heq ▸ hne) with ⟨-, h₂⟩ | h₂
      · exact absurd (h₁.symm.trans (heq.trans h₂)) (hl.fresh g sl₁ hg₀ hsl₁)
      · exact h.inj g sl₁ g' sl₂ hg₀ hg₀' hsl₁ hsl₂ (h₁ ▸ hne) (h₁.symm.trans (heq.trans h₂))

lemma Parents.link (hp : v.Parents O) (h : v.Own O) (hl : Linkable O v f sl b) :
    (v.setSlot f sl b).Parents O := by
  have hfield : ∀ g, v.Live O g → (v.setSlot f sl b).field g F_DIR = v.field g F_DIR := by
    intro g hg
    refine field_store fun hc => ?_
    exact h.slot_ne_field hl.live hg hl.ok hl.hasSlot (k := F_DIR) (by decide) (by decide)
      (Prod.ext hc.1.symm hc.2.symm)
  refine ⟨(hfield _ .root).trans hp.root, fun g hg hlive hne => ?_⟩
  rcases hl.live_or_new h hlive with hlive₀ | ⟨hdir, j, -, rfl, -⟩
  · rw [hfield g hlive₀] at hne ⊢
    obtain ⟨d, hd, haddr⟩ := hp.open_ g hg hlive₀ hne
    refine ⟨d, ⟨hd.known, hl.live_mono h hd.live,
      (h.isDir_setSlot hl.live hd.live hl.ok hl.hasSlot).mpr hd.isDir, ?_⟩, haddr⟩
    obtain ⟨sl', hsl', hnum⟩ := hd.block
    have hne' : v.num d sl' ≠ 0 := by
      rw [hnum]
      rcases h.block_of_live hlive₀ with h₁ | h₁ <;> omega
    exact ⟨sl', hsl', (hl.num_of_ne_zero h hd.live hsl'.ok hne').trans hnum⟩
  · refine absurd ?_ hne
    have hpage := hl.page
    rw [View.field, FileRef.entry, hpage]
    exact hl.parent hdir j hg

end Link

/-! ## Edits -/

/-- The edits that the operations are made of. -/
inductive Edit (O : Set FileRef) (v : View) : View → Prop
  /-- `alloc_block`. -/
  | take {b : ℕ} (z : Block) (hb : v.FirstFree b) : Edit O v (v.take b z)
  /-- A block number is stored into an empty slot. -/
  | link {f : FileRef} {sl : Slot} {b : ℕ} (hl : Linkable O v f sl b) : Edit O v (v.setSlot f sl b)
  /-- `free_block` of the block of a slot, which is emptied. -/
  | unlink {f : FileRef} {sl : Slot} (hf : v.Live O f) (hsl : sl.Ok) (hne : v.num f sl ≠ 0) :
      Edit O v (v.unlink f sl)
  /-- `f_size`. -/
  | size {f : FileRef} (w : Word) (hf : v.Live O f) :
      Edit O v (v.store f.block (f.word + F_SIZE) w)
  /-- `f_dir`. -/
  | parent {d f : FileRef} (hf : v.Live O f) (hroot : f ≠ .root) (hd : v.Entry O d f) :
      Edit O v (v.store f.block (f.word + F_DIR) d.addr)
  /-- `f_name[0] = '\0'`. -/
  | clearName {f : FileRef} (hf : v.Live O f) : Edit O v (v.clearName f)
  /-- A client writes to a page of a regular file. -/
  | data {f : FileRef} {sl : Slot} (blk : Block) (hf : v.Live O f) (hreg : ¬ v.IsDir f)
      (hsl : sl.Data) (hne : v.num f sl ≠ 0) : Edit O v (Function.update v (v.num f sl) blk)

/-- **Every edit keeps the ownership invariant.** -/
lemma Edit.own (he : Edit O v v') (h : v.Own O) : v'.Own O := by
  cases he with
  | take z hb => exact h.shrink (h.shrinks_take hb z)
  | link hl => exact h.link hl
  | unlink hf hsl hne => exact h.shrink (h.shrinks_unlink hf hsl hne)
  | size w hf => exact h.shrink (h.shrinks_field hf (by decide) (by decide) w)
  | parent hf hroot hd => exact h.shrink (h.shrinks_field hf (by decide) (by decide) _)
  | clearName hf => exact h.shrink (h.shrinks_clearName hf)
  | data blk hf hreg hsl hne => exact h.shrink (h.shrinks_data hf hreg hsl hne blk)

lemma Edit.nblocks (he : Edit O v v') (h : v.Own O) : v'.nblocks = v.nblocks := by
  cases he with
  | take z hb => exact h.nblocks_take hb z
  | link hl => exact nblocks_store_plain (h.plain_slot hl.live hl.ok hl.hasSlot)
  | unlink hf hsl hne => exact (h.shrinks_unlink hf hsl hne).nblocks
  | size w hf => exact nblocks_store_plain (h.plain_field hf _)
  | parent hf hroot hd => exact nblocks_store_plain (h.plain_field hf _)
  | clearName hf => exact (h.shrinks_clearName hf).nblocks
  | data blk hf hreg hsl hne => exact (h.shrinks_data hf hreg hsl hne blk).nblocks

/-- **Every edit keeps the pointers to parents.** -/
lemma Edit.parents (he : Edit O v v') (h : v.Own O) (hp : v.Parents O) : v'.Parents O := by
  cases he with
  | @take b z hb =>
      refine hp.shrink h (h.shrinks_take hb z) fun g hg => ?_
      rw [field, h.take_of_ne hb, field]
      have hg := (h.agree_take hb z).live.mp hg
      rcases h.meta_used (.type hg) with h1 | ⟨hgt, -, hused⟩
      · exact .inl h1
      · exact .inr ⟨hgt, fun heq => hused (heq ▸ hb.free)⟩
  | link hl => exact hp.link h hl
  | @unlink f sl hf hsl hne =>
      have hs := h.shrinks_unlink hf hsl hne
      refine hp.shrink h hs fun g hg => ?_
      have hg := hs.live g hg
      have hhas := hasSlot_of_num_ne_zero hne
      have hlt := (h.range f sl hf hsl hne).2.1
      have hbit : bitmapBlock (v.num f sl) ≤ v.lastReserved := bitmapBlock_le hlt
      have hbit' := @two_le_bitmapBlock (v.num f sl)
      rw [View.unlink, setFree, field_store, setSlot, field_store]
      · rintro ⟨hb, hw⟩
        exact h.slot_ne_field hf hg hsl hhas (k := F_DIR) (by decide) (by decide)
          (Prod.ext hb.symm hw.symm)
      · rintro ⟨hb, -⟩
        rcases h.block_of_live hg with h1 | h1 <;> omega
  | @size f w hf =>
      have hs := h.shrinks_field hf (k := F_SIZE) (by decide) (by decide) w
      refine hp.shrink h hs fun g hg => ?_
      refine field_store fun hc => ?_
      have := (h.disjoint (hs.live g hg) hf (k := F_DIR) (l := F_SIZE) (by decide) (by decide)
        hc.1 hc.2).2
      exact absurd this (by decide)
  | @parent d f hf hroot hd =>
      have hs := h.shrinks_field hf (k := F_DIR) (by decide) (by decide) d.addr
      have hfield : ∀ g, v.Live O g → g ≠ f →
          (v.store f.block (f.word + F_DIR) d.addr).field g F_DIR = v.field g F_DIR := by
        intro g hg hgf
        refine field_store fun hc => ?_
        exact hgf (h.disjoint hg hf (k := F_DIR) (l := F_DIR) (by decide) (by decide) hc.1 hc.2).1
      refine ⟨(hfield _ .root hroot.symm).trans hp.root, fun g hg hlive hne => ?_⟩
      have hlive₀ := hs.live g hlive
      by_cases hgf : g = f
      · subst hgf
        refine ⟨d, h.entry_shrink hs hlive hroot hd, ?_⟩
        rw [field, store_apply, if_pos ⟨rfl, rfl⟩]
      · rw [hfield g hlive₀ hgf] at hne ⊢
        obtain ⟨d', hd', haddr⟩ := hp.open_ g hg hlive₀ hne
        refine ⟨d', h.entry_shrink hs hlive ?_ hd', haddr⟩
        rintro rfl
        exact hne hp.root
  | @clearName f hf =>
      have hs := h.shrinks_clearName hf
      refine hp.shrink h hs fun g hg => ?_
      refine field_store fun hc => ?_
      have := (h.disjoint (hs.live g hg) hf (k := F_DIR) (l := 0) (by decide) (by decide)
        hc.1 hc.2).2
      exact absurd this (by decide)
  | @data f sl blk hf hreg hsl hne =>
      have hs := h.shrinks_data hf hreg hsl hne blk
      refine hp.shrink h hs fun g hg => ?_
      rw [field, Function.update_of_ne (h.meta_ne_data hf hreg hsl hne (.type (hs.live g hg))),
        field]

/-- Any number of edits. -/
def Edits (O : Set FileRef) : View → View → Prop := Relation.ReflTransGen (Edit O)

lemma Edits.own (he : Edits O v v') (h : v.Own O) : v'.Own O := by
  induction he with
  | refl => exact h
  | tail _ he ih => exact he.own ih

lemma Edits.nblocks (he : Edits O v v') (h : v.Own O) : v'.nblocks = v.nblocks := by
  induction he with
  | refl => rfl
  | tail hs he ih => exact (he.nblocks (Edits.own hs h)).trans ih

lemma Edits.parents (he : Edits O v v') (h : v.Own O) (hp : v.Parents O) : v'.Parents O := by
  induction he with
  | refl => exact hp
  | tail hs he ih => exact he.parents (Edits.own hs h) ih

end

end View

end MosRv.Fs
