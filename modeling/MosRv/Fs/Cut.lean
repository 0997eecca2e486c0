import MosRv.Fs.Paths

/-!
# Cutting off a regular file

What `file_truncate` does to the files of a view, in particular to the others: a file that is not a
directory is cut off, and the blocks that it loses become free.  Nothing else changes hands
(`View.Cuts`).

This is not so for the blocks of the file that are behind its size.  `file_truncate` goes up to the
old size only; if it then frees the indirect block, such blocks are in no slot any more, but they
are not free either.  `View.KeepsAll` says that there are none.
-/

namespace MosRv.Fs

open View

/-- The file `f` is cut off: it loses blocks, which become free. -/
structure View.Cuts (O : Set FileRef) (f : FileRef) (v v' : View) : Prop where
  live : ∀ g, v.Live O g → v'.Live O g
  isDir : ∀ g, v.Live O g → (v'.IsDir g ↔ v.IsDir g)
  num : ∀ g sl, v.Live O g → sl.Ok → v.num g sl ≠ 0 →
    v'.num g sl = v.num g sl ∨ g = f ∧ v'.Free (v.num g sl)
  free : ∀ b, b < v.nblocks → v.Free b → v'.Free b
  nblocks : v'.nblocks = v.nblocks

/-- No block is lost when the file is cut off: if its indirect block goes, the file has no blocks
behind its size in it. -/
def View.KeepsAll (v : View) (f : FileRef) (newsize : Word) : Prop :=
  newNblocks newsize ≤ NDIRECT →
    ∀ i, NDIRECT ≤ i → i < NINDIRECT → (v.field f F_SIZE).toNat / BY2BLK + 1 ≤ i →
      v.num f (.of i) = 0

section

variable {O : Set FileRef} {v v' v'' : View} {f g : FileRef} {sl sl' : Slot} {b lo k n : ℕ}

lemma View.Cuts.refl : Cuts O f v v :=
  ⟨fun _ h => h, fun _ _ => Iff.rfl, fun _ _ _ _ _ => .inl rfl, fun _ _ h => h, rfl⟩

lemma View.Cuts.trans (h : Cuts O f v v') (h' : Cuts O f v' v'') (hown : v.Own O) :
    Cuts O f v v'' where
  live g hg := h'.live g (h.live g hg)
  isDir g hg := (h'.isDir g (h.live g hg)).trans (h.isDir g hg)
  num g sl hg hsl hne := by
    have hlt := (hown.range g sl hg hsl hne).2.1
    rcases h.num g sl hg hsl hne with heq | ⟨hgf, hfree⟩
    · rw [← heq] at hne ⊢
      exact h'.num g sl (h.live g hg) hsl hne
    · exact .inr ⟨hgf, h'.free _ (h.nblocks ▸ hlt) hfree⟩
  free b hb hfree := h'.free b (h.nblocks ▸ hb) (h.free b hb hfree)
  nblocks := h'.nblocks.trans h.nblocks

/-! ## One slot -/

lemma View.Own.free_unlink (h : v.Own O) (hf : v.Live O f) (hsl : sl.Ok) (hne : v.num f sl ≠ 0)
    (hb : b < v.nblocks) : (v.unlink f sl).Free b ↔ v.Free b ∨ b = v.num f sl := by
  have hhas := hasSlot_of_num_ne_zero hne
  rw [View.unlink, free_setFree, setSlot, free_store (h.plain_slot hf hsl hhas) hb]

/-- The slots of other files, and the other slots of this one, keep their blocks; but the slots in
an indirect block go with it. -/
lemma View.Own.num_unlink_of_ne (h : v.Own O) (hf : v.Live O f) (hreg : ¬ v.IsDir f)
    (hg : v.Live O g) (hsl : sl.Ok) (hsl' : sl'.Ok) (hne : v.num f sl ≠ 0)
    (hnot : ¬ (f = g ∧ sl = sl')) (hind : ¬ (sl = .indirect ∧ f = g ∧ ∃ i, sl' = .index i)) :
    (v.unlink f sl).num g sl' = v.num g sl' := by
  have hhas := hasSlot_of_num_ne_zero hne
  have hg' := (h.live_emptied hf hsl hhas hg).resolve_right fun hc => hreg hc.1
  rw [(h.agree_unlink hf hsl hne).num hg' hsl',
    h.num_setSlot_of_ne hf hg hsl hsl' hhas hnot hind]

/-- The other slots of the file itself, which stays live. -/
lemma View.Own.num_unlink_same (h : v.Own O) (hf : v.Live O f) (hsl : sl.Ok) (hsl' : sl'.Ok)
    (hne : v.num f sl ≠ 0) (hnot : sl ≠ sl') (hind : ¬ (sl = .indirect ∧ ∃ i, sl' = .index i)) :
    (v.unlink f sl).num f sl' = v.num f sl' := by
  have hhas := hasSlot_of_num_ne_zero hne
  have hf' := (h.live_emptied hf hsl hhas hf).elim id And.right
  rw [(h.agree_unlink hf hsl hne).num hf' hsl', h.num_setSlot_of_ne hf hf hsl hsl' hhas
    (fun hc => hnot hc.2) fun hc => hind ⟨hc.1, hc.2.2⟩]

lemma View.Own.num_unlink_self (h : v.Own O) (hf : v.Live O f) (hsl : sl.Ok)
    (hne : v.num f sl ≠ 0) : (v.unlink f sl).num f sl = 0 := by
  by_contra hne'
  have hlive := h.live_unlink hf hsl hne
  have hs := h.shrinks_unlink hf hsl hne
  have heq := hs.num f sl hlive hsl hne'
  have hlt := (h.range f sl hf hsl hne).2.1
  have hused := ((h.shrink hs).range f sl hlive hsl hne').2.2
  rw [heq] at hused
  exact hused ((h.free_unlink hf hsl hne hlt).mpr (.inr rfl))

/-- A slot of a regular file is emptied; if it is that of the indirect block, that is empty. -/
lemma View.Own.cuts_unlink (h : v.Own O) (hf : v.Live O f) (hreg : ¬ v.IsDir f) (hsl : sl.Ok)
    (hne : v.num f sl ≠ 0) (hind : sl = .indirect → ∀ i, (Slot.index i).Ok →
      v.num f (.index i) = 0) :
    Cuts O f v (v.unlink f sl) := by
  have hhas := hasSlot_of_num_ne_zero hne
  have hagree := h.agree_unlink hf hsl hne
  have hlive : ∀ g, v.Live O g → (v.setSlot f sl 0).Live O g :=
    fun g hg => (h.live_emptied hf hsl hhas hg).resolve_right fun hc => hreg hc.1
  refine ⟨fun g hg => hagree.live.mpr (hlive g hg), fun g hg => ?_, fun g sl' hg hsl' hne' => ?_,
    fun b hb hfree => (h.free_unlink hf hsl hne hb).mpr (.inl hfree),
    (h.shrinks_unlink hf hsl hne).nblocks⟩
  · rw [hagree.isDir (hlive g hg), h.isDir_setSlot hf hg hsl hhas]
  · by_cases hsame : f = g ∧ sl = sl'
    · obtain ⟨rfl, rfl⟩ := hsame
      have hlt := (h.range f sl hf hsl hne).2.1
      exact .inr ⟨rfl, (h.free_unlink hf hsl hne hlt).mpr (.inr rfl)⟩
    · refine .inl (h.num_unlink_of_ne hf hreg hg hsl hsl' hne hsame ?_)
      rintro ⟨rfl, rfl, i, rfl⟩
      exact hne' (hind rfl i hsl')

lemma View.Own.cuts_clearSlot (h : v.Own O) (hf : v.Live O f) (hreg : ¬ v.IsDir f) (hsl : sl.Ok)
    (hind : sl = .indirect → ∀ i, (Slot.index i).Ok → v.num f (.index i) = 0) :
    Cuts O f v (v.clearSlot f sl) := by
  rw [View.clearSlot]
  split_ifs with hne
  · exact h.cuts_unlink hf hreg hsl hne hind
  · exact .refl

/-! ## A range of blocks -/

lemma Slot.of_inj {i j : ℕ} (h : Slot.of i = Slot.of j) : i = j := by
  rw [Slot.of, Slot.of] at h
  split_ifs at h <;> cases h <;> rfl

lemma View.Own.cuts_clearBlocks (h : v.Own O) (hf : v.Live O f) (hreg : ¬ v.IsDir f) (lo k : ℕ) :
    Cuts O f v (v.clearBlocks f lo k) := by
  induction k with
  | zero => exact .refl
  | succ k ih =>
      rw [View.clearBlocks]
      by_cases hn : lo + k < NINDIRECT
      · obtain ⟨he, hl⟩ := h.edits_clearBlocks hf lo k
        have hsl := Slot.data_of hn
        rw [View.clearBlock_eq hn]
        refine ih.trans ((he.own h).cuts_clearSlot hl (fun hd => hreg ((ih.isDir f hf).mp hd))
          hsl.ok fun heq => absurd heq hsl.ne_indirect) h
      · rw [View.clearBlock_of_ge hn]
        exact ih

/-- Which blocks of the file are left. -/
lemma View.Own.num_clearBlocks (h : v.Own O) (hf : v.Live O f) (hn : n < NINDIRECT) :
    (v.clearBlocks f lo k).num f (.of n) = if lo ≤ n ∧ n < lo + k then 0 else v.num f (.of n) := by
  induction k with
  | zero => rw [View.clearBlocks, if_neg (by omega)]
  | succ k ih =>
      rw [View.clearBlocks]
      by_cases hk : lo + k < NINDIRECT
      · obtain ⟨he, hl⟩ := h.edits_clearBlocks hf lo k
        have hown := he.own h
        rw [View.clearBlock_eq hk, View.clearSlot]
        by_cases hnk : n = lo + k
        · subst hnk
          have hr : lo ≤ lo + k ∧ lo + k < lo + (k + 1) := by omega
          rw [if_pos hr]
          split_ifs with hne
          · exact hown.num_unlink_self hl (Slot.data_of hk).ok hne
          · exact not_not.mp hne
        · have hrange : (lo ≤ n ∧ n < lo + (k + 1)) ↔ lo ≤ n ∧ n < lo + k := by omega
          rw [if_congr hrange rfl rfl, ← ih]
          split_ifs with hne
          · refine hown.num_unlink_same hl (Slot.data_of hk).ok (Slot.data_of hn).ok hne ?_ ?_
            · exact fun hc => hnk (Slot.of_inj hc).symm
            · exact fun hc => (Slot.data_of hk).ne_indirect hc.1
          · rfl
      · have hrange : (lo ≤ n ∧ n < lo + (k + 1)) ↔ lo ≤ n ∧ n < lo + k := by omega
        rw [View.clearBlock_of_ge hk, ih, if_congr hrange rfl rfl]

/-! ## The whole file -/

lemma View.Own.cuts_size (h : v.Own O) (hf : v.Live O f) (w : Word) :
    Cuts O f v (v.store f.block (f.word + F_SIZE) w) := by
  have hagree := h.agree_field hf (k := F_SIZE) (by decide) (by decide) w
  have hplain := h.plain_field hf F_SIZE
  exact ⟨fun _ => hagree.live.mpr, fun _ => hagree.isDir, fun _ _ hg hsl _ =>
    .inl (hagree.num hg hsl),
    fun _ hb => (free_store hplain hb).mpr, nblocks_store_plain hplain⟩

/-- **A regular file is truncated**: the blocks that it loses become free, and no other file is
touched. -/
lemma View.Own.cuts_truncate (h : v.Own O) (hf : v.Live O f) (hreg : ¬ v.IsDir f) {w : Word}
    (hall : v.KeepsAll f w) : Cuts O f v (v.truncate f w) := by
  let old := (v.field f F_SIZE).toNat / BY2BLK + 1
  have hc₁ := h.cuts_clearBlocks hf hreg (newNblocks w) (old - newNblocks w)
  obtain ⟨he₁, hl₁⟩ := h.edits_clearBlocks hf (newNblocks w) (old - newNblocks w)
  have hown₁ := he₁.own h
  have hreg₁ : ¬ (v.clearBlocks f (newNblocks w) (old - newNblocks w)).IsDir f :=
    fun hd => hreg ((hc₁.isDir f hf).mp hd)
  obtain ⟨he₂, hl₂⟩ := hown₁.edits_clearIndirect hl₁ (newNblocks w)
  have hc₂ : Cuts O f (v.clearBlocks f (newNblocks w) (old - newNblocks w))
      (if newNblocks w ≤ NDIRECT then
        (v.clearBlocks f (newNblocks w) (old - newNblocks w)).clearSlot f .indirect
      else v.clearBlocks f (newNblocks w) (old - newNblocks w)) := by
    split_ifs with hnew
    · refine hown₁.cuts_clearSlot hl₁ hreg₁ Slot.ok_indirect fun _ i hi => ?_
      have hdata : NDIRECT ≤ i ∧ i < NINDIRECT := hi.resolve_left nofun
      have hof : Slot.of i = .index i := Slot.of_index (not_lt.mpr hdata.1)
      rw [← hof, h.num_clearBlocks hf hdata.2]
      split_ifs with hr
      · rfl
      · exact hall hnew i hdata.1 hdata.2 (by omega)
    · exact .refl
  exact (hc₁.trans hc₂ h).trans ((he₂.own hown₁).cuts_size hl₂ w) h

lemma View.Own.cuts_setSize (h : v.Own O) (hf : v.Live O f) {w : Word}
    (hall : w.toNat < (v.field f F_SIZE).toNat → ¬ v.IsDir f ∧ v.KeepsAll f w) :
    Cuts O f v (v.setSize f w) := by
  rw [View.setSize]
  have hstep : ∀ v₁, Edits O v v₁ ∧ v₁.Live O f → Cuts O f v v₁ →
      Cuts O f v (v₁.store f.block (f.word + F_SIZE) w) :=
    fun v₁ he hc => hc.trans ((he.1.own h).cuts_size he.2 w) h
  split_ifs with hlt
  · exact hstep _ (h.edits_truncate hf w) (h.cuts_truncate hf (hall hlt).1 (hall hlt).2)
  · exact hstep _ ⟨.refl, hf⟩ .refl

lemma View.Own.cuts_remove (h : v.Own O) (hf : v.Live O f) (hO : f = .root ∨ f ∈ O)
    (hreg : ¬ v.IsDir f) (hall : v.KeepsAll f 0#32) : Cuts O f v (v.remove f) := by
  obtain ⟨he, hl⟩ := h.edits_truncate hf 0#32
  have hown := he.own h
  have hplain : (v.truncate f 0#32).Plain f.block f.word := hown.plain_field hl 0
  refine (h.cuts_truncate hf hreg hall).trans ⟨fun g hg => hown.live_clearName hl hO hg,
    fun g hg => hown.isDir_clearName hl hg, fun g sl hg hsl _ =>
      .inl (hown.num_clearName hl hg hsl),
    fun b hb => (free_store hplain hb).mpr, nblocks_store_plain hplain⟩ h

end

end MosRv.Fs
