import MosRv.Fs.Runs
import MosRv.Fs.Truncate

/-!
# What is in a new block (`map_block`, `free_block`, `file_get_block`)

`alloc_block` maps a page for the block that it takes: a page of zeros, if the block is not in the
cache.  `free_block` leaves the page of the block in the cache, and `map_block` keeps a page that is
there.  So a block that has been freed and is taken again comes with what it held last, which may
have been the contents of another file.

`Server.DropsZero` says that cutting off a file frees no block with such a page: the pages of the
blocks that it loses are not in the cache, or hold zeros.  In runs in which every file is cut off
like that, the pages of all free blocks hold zeros (`Server.Clean`), and so does every new block
(`new_blocks_zero`).
-/

namespace MosRv.Fs

open Prog View Reach

/-- The pages behind the bitmap stay as they are, but for that of the file, and that of its indirect
block if this is loaded. -/
def Server.Spares (s : Server) (f : FileRef) (loads : Prop) (s' : Server) : Prop :=
  ∀ c, s.view.lastReserved < c → c ≠ f.block → (c = s.view.num f .indirect → ¬ loads) →
    s'.cache c = s.cache c

/-- The blocks that the file loses when it is cut off are not in the cache, or hold zeros.  In the
indirect block, the slots that are cleared do not count. -/
structure Server.DropsZero (s : Server) (f : FileRef) (newsize : Word) : Prop where
  data : ∀ n < NINDIRECT, newNblocks newsize ≤ n → n < (s.view.field f F_SIZE).toNat / BY2BLK + 1 →
    s.view.num f (.of n) ≠ 0 → s.page (s.view.num f (.of n)) = Block.zero
  indirect : newNblocks newsize ≤ NDIRECT → s.view.num f .indirect ≠ 0 →
    (s.cache (s.view.num f .indirect)).isSome ∨
      NDIRECT < (s.view.field f F_SIZE).toNat / BY2BLK + 1 →
    ∀ i, ¬ (NDIRECT ≤ i ∧ i < NINDIRECT ∧ i < (s.view.field f F_SIZE).toNat / BY2BLK + 1) →
      s.view (s.view.num f .indirect) i = 0#32

section

variable {O : Set FileRef} {s s' s'' : Server} {f : FileRef} {sl : Slot} {b n : ℕ} {w : Word}
variable {E : FsErr → Server → Prop}

/-! ## Which pages are loaded -/

lemma Server.Spares.refl {loads : Prop} : s.Spares f loads s := fun _ _ _ _ => rfl

lemma Server.Spares.mono {loads loads' : Prop} (h : s.Spares f loads s') (hl : loads → loads') :
    s.Spares f loads' s' :=
  fun c hc hf hind => h c hc hf fun heq hloads => hind heq (hl hloads)

lemma Server.Spares.trans {loads : Prop} (h : s.Spares f loads s') (h' : s'.Spares f loads s'')
    (hlast : s'.view.lastReserved = s.view.lastReserved)
    (hind : s'.view.num f .indirect = s.view.num f .indirect) : s.Spares f loads s'' :=
  fun c hc hf hi => (h' c (hlast ▸ hc) hf fun heq => hi (heq.trans hind)).trans (h c hc hf hi)

/-- Finding a slot loads the indirect block, if the slot is in it. -/
lemma Server.Sound.wp_fileBlockWalk_spares (h : s.Sound O) (hf : s.view.Live O f)
    (hm : (s.cache f.block).isSome) :
    wp (fileBlockWalk f n false) s (fun _ s' => s.Spares f (NDIRECT ≤ n) s')
      (fun _ s' => s.Spares f (NDIRECT ≤ n) s') Panic.Memory := by
  rw [fileBlockWalk, wp_ite]
  refine ⟨fun _ => .refl, fun hd => ?_⟩
  rw [wp_ite]
  refine ⟨fun hn => ?_, fun _ => .refl⟩
  rw [wp_bind]
  refine (@Server.Sound.wp_fillSlot _ _ _ .indirect h hf trivial hm false).mono ?_ ?_ fun _ hp => hp
  · rintro - s₁ (⟨hne, rfl⟩ | ⟨hc, -⟩)
    · obtain ⟨-, hlt, hused⟩ := h.own.range f .indirect hf Slot.ok_indirect hne
      rw [wp_bind, loadField, wp_loadWord hm, wp_bind]
      refine (wp_readBlock (P := Panic.Memory) h.started hlt hused rfl).mono ?_ (fun _ _ he => he)
        fun _ hp => hp
      rintro - s₂ ⟨-, -, hcache⟩
      exact fun c _ _ hi => hcache c fun heq => hi heq (not_lt.mp hd)
    · exact absurd hc (by decide)
  · rintro e s₁ ⟨-, ⟨-, -, rfl⟩ | ⟨hc, -⟩⟩
    · exact .refl
    · exact absurd hc (by decide)

/-- Emptying a slot writes to the block that the slot is in. -/
lemma Server.Sound.wp_clearSlot_cache (h : s.Sound O) (hf : s.view.Live O f) (hsl : sl.Ok)
    (hhas : s.view.HasSlot f sl) (hm : (s.cache (s.view.slotAddr f sl).1).isSome)
    {P : Panic → Prop} :
    wp (clearSlot (s.view.slotAddr f sl)) s
      (fun _ s' => ∀ c, s.view.lastReserved < c → c ≠ (s.view.slotAddr f sl).1 →
        s'.cache c = s.cache c) E P := by
  rw [clearSlot, wp_bind, wp_loadWord hm, wp_ite, num_eq_zero_iff hhas]
  refine ⟨fun _ _ _ _ => rfl, fun hne => ?_⟩
  rw [wp_bind, ← num_eq hhas]
  obtain ⟨-, hlt, -⟩ := h.own.range f sl hf hsl hne
  refine (wp_freeBlock h.started hne hlt).mono ?_ (fun _ _ hf => hf) fun _ hp => hp
  rintro - s₁ ⟨hbec, hcache⟩
  rw [wp_storeWord (hbec.mapped _ hm)]
  intro c hc hca
  have hbit : bitmapBlock (s.view.num f sl) ≤ s.view.lastReserved := bitmapBlock_le hlt
  rw [← hcache c (by omega)]
  exact Function.update_of_ne hca _ _

lemma Server.Sound.wp_fileClearBlock_spares (h : s.Sound O) (hf : s.view.Live O f)
    (hm : (s.cache f.block).isSome) :
    wp (fileClearBlock f n) s (fun _ s' => s.Spares f (NDIRECT ≤ n) s')
      (fun _ s' => s.Spares f (NDIRECT ≤ n) s') Panic.Memory := by
  rw [fileClearBlock, wp_bind]
  refine ((h.wp_fileBlockWalk hf hm false fun _ _ hc => absurd hc (by decide)).and
    (h.wp_fileBlockWalk_spares hf hm)).mono ?_ (fun _ _ he => he.2) fun _ hp => hp.1
  rintro ptr s₁ ⟨⟨hn, hr, -, hlive, hhas, rfl, hmap, ⟨-, hview⟩ | ⟨hc, -⟩⟩, hsp⟩
  · refine ((h.runs hr).wp_clearSlot_cache hlive (Slot.data_of hn).ok hhas hmap).mono ?_
      (fun _ _ hf => hf) fun _ hp => hp
    intro _ s₂ hcache c hc hcf hind
    rw [← hsp c hc hcf hind, hcache c (hview ▸ hc)]
    rw [hview]
    by_cases hd : n < NDIRECT
    · rw [Slot.of_direct hd]
      exact hcf
    · rw [Slot.of_index hd]
      exact fun heq => hind heq (not_lt.mp hd)
  · exact absurd hc (by decide)

/-- The loop of `file_truncate`. -/
lemma Server.Sound.wp_clearBlocks_spares (h : s.Sound O) (hf : s.view.Live O f)
    (hm : (s.cache f.block).isSome) (new old : ℕ) :
    wp (clearBlocks f new old) s (fun _ s' => s.Becomes (s.view.clearBlocks f new (old - new)) s' ∧
      s.Spares f (NDIRECT < old ∧ new < old) s') E Panic.Memory := by
  rw [clearBlocks]
  have hloop := @wp_forRange _ _ _ E Panic.Memory
    (fun bno => do let _ ← attempt (fileClearBlock f bno))
    (fun i s' => s.Becomes (s.view.clearBlocks f new (i - new)) s' ∧
      s.Spares f (NDIRECT < i ∧ new < i) s') (old - new) new (s := s)
    ⟨by rw [Nat.sub_self]; exact .refl, .refl⟩ ?_
  · refine hloop.mono ?_ (fun _ _ he => he) fun _ hp => hp
    rintro - s₁ ⟨hbec, hsp⟩
    rw [Nat.add_sub_cancel_left] at hbec
    exact ⟨hbec, hsp.mono fun hl => by omega⟩
  rintro i s₁ hi - ⟨hbec, hsp⟩
  obtain ⟨hedits, hlive⟩ := h.own.edits_clearBlocks hf new (i - new)
  have h₁ := h.runs (hbec.runs hedits)
  have hlive₁ : s₁.view.Live O f := hbec.view ▸ hlive
  have hlast : s₁.view.lastReserved = s.view.lastReserved := by
    rw [hbec.view]
    exact lastReserved_congr (hedits.nblocks h.own)
  have hind : s₁.view.num f .indirect = s.view.num f .indirect := by
    rw [hbec.view, h.own.indirect_clearBlocks hf]
  have hstep : i + 1 - new = (i - new) + 1 := by omega
  have hidx : new + (i - new) = i := by omega
  -- whether the block was there or not
  have hnext : ∀ s₂, s₁.Becomes (s₁.view.clearBlock f i) s₂ → s₁.Spares f (NDIRECT ≤ i) s₂ →
      s.Becomes (s.view.clearBlocks f new (i + 1 - new)) s₂ ∧
        s.Spares f (NDIRECT < i + 1 ∧ new < i + 1) s₂ := by
    intro s₂ hbec₂ hsp₂
    refine ⟨?_, (hsp.mono fun hl => by omega).trans (hsp₂.mono fun hl => by omega) hlast hind⟩
    rw [hstep, View.clearBlocks, hidx, ← hbec.view]
    exact hbec.trans hbec₂
  rw [wp_bind, wp_attempt]
  refine ((h₁.wp_fileClearBlock hlive₁ (hbec.mapped _ hm)).and
    (h₁.wp_fileClearBlock_spares hlive₁ (hbec.mapped _ hm))).mono ?_ ?_ fun _ hp => hp.1
  · exact fun _ s₂ hs₂ => hnext s₂ hs₂.1 hs₂.2
  · exact fun _ s₂ hs₂ => hnext s₂ hs₂.1 hs₂.2

/-- **The pages that `file_truncate` loads.** -/
lemma Server.Sound.wp_fileTruncate_spares (h : s.Sound O) (hf : s.view.Live O f)
    (hm : (s.cache f.block).isSome) (w : Word) :
    wp (fileTruncate f w) s (fun _ s' => s.Spares f
      (NDIRECT < (s.view.field f F_SIZE).toNat / BY2BLK + 1 ∧
        newNblocks w < (s.view.field f F_SIZE).toNat / BY2BLK + 1) s') E Panic.Memory := by
  rw [fileTruncate, wp_bind, loadField, wp_loadWord hm, wp_bind]
  refine (h.wp_clearBlocks_spares hf hm _ _).mono ?_ (fun _ _ hf => hf) fun _ hp => hp
  rintro - s₁ ⟨hbec₁, hsp⟩
  obtain ⟨he₁, hl₁⟩ := h.own.edits_clearBlocks hf (newNblocks w)
    ((s.view.field f F_SIZE).toNat / BY2BLK + 1 - newNblocks w)
  have hm₁ := hbec₁.mapped _ hm
  have h₁ := h.runs (hbec₁.runs he₁)
  have hlast : s₁.view.lastReserved = s.view.lastReserved := by
    rw [hbec₁.view]
    exact lastReserved_congr (he₁.nblocks h.own)
  have hind : wp (if newNblocks w ≤ NDIRECT then clearSlot (f.block, f.word + F_INDIRECT)
      else pure () : FsM Unit) s₁
      (fun _ s₂ => (∀ c, s₁.view.lastReserved < c → c ≠ f.block → s₂.cache c = s₁.cache c) ∧
        (s₂.cache f.block).isSome) E Panic.Memory := by
    split_ifs with hnew
    · refine ((h₁.wp_clearSlot (hbec₁.view ▸ hl₁) Slot.ok_indirect trivial hm₁).and
        (h₁.wp_clearSlot_cache (E := E) (P := Panic.Memory)
          (hbec₁.view ▸ hl₁) Slot.ok_indirect trivial
          hm₁)).mono ?_
        (fun _ _ he => he.1) fun _ hp => hp.1
      exact fun _ s₂ hs₂ => ⟨hs₂.2, hs₂.1.mapped _ hm₁⟩
    · exact ⟨fun _ _ _ => rfl, hm₁⟩
  rw [wp_bind]
  refine hind.mono ?_ (fun _ _ hf => hf) fun _ hp => hp
  rintro - s₂ ⟨hcache, hm₂⟩
  rw [storeField, wp_storeWord hm₂]
  intro c hc hcf hi
  rw [← hsp c hc hcf hi, ← hcache c (hlast ▸ hc) hcf]
  exact Function.update_of_ne hcf _ _

/-! ## The pages of free blocks -/

lemma Server.Sound.reserved_of_free (h : s.Sound O) (hb : b < s.view.nblocks)
    (hfree : s.view.Free b) : s.view.lastReserved < b := h.own.reserved b hb hfree

/-- A live file does not sit in a free block. -/
lemma Server.Sound.ne_block_of_free (h : s.Sound O) (hf : s.view.Live O f)
    (hb : b < s.view.nblocks) (hfree : s.view.Free b) : b ≠ f.block := by
  rintro rfl
  have h2 := @two_le_lastReserved s.view
  have hgt := h.reserved_of_free hb hfree
  rcases h.own.meta_used (.type hf) with h1 | ⟨-, -, hused⟩
  · omega
  · exact hused hfree

/-- The indirect block is empty after truncation, if what is not a slot that is cleared was 0. -/
lemma View.Own.truncate_indirect {v : View} (h : v.Own O) (hf : v.Live O f)
    (hnew : newNblocks w ≤ NDIRECT) (hne : v.num f .indirect ≠ 0)
    (hz : ∀ i, ¬ (NDIRECT ≤ i ∧ i < NINDIRECT ∧ i < (v.field f F_SIZE).toNat / BY2BLK + 1) →
      v (v.num f .indirect) i = 0#32) :
    v.truncate f w (v.num f .indirect) = Block.zero := by
  obtain ⟨v₁, v₂, hv₁, hv₂, heq, he₁, hl₁, he₂, hl₂⟩ := h.truncate_eq hf w
  have hgt := (h.range f .indirect hf Slot.ok_indirect hne).1
  have hblock := h.block_ne_indirect hf hf hne
  have hind₁ : v₁.num f .indirect = v.num f .indirect := by
    rw [hv₁, h.indirect_clearBlocks hf]
  funext i
  by_cases hi : NDIRECT ≤ i ∧ i < NINDIRECT ∧ i < (v.field f F_SIZE).toNat / BY2BLK + 1
  · -- a slot that has been cleared
    obtain ⟨hge, hlt, hsize⟩ := hi
    have hnum : v₁.num f (.of i) = 0 := by
      rw [hv₁, h.num_clearBlocks hf hlt, if_pos (by omega)]
    have hhas : v₁.HasSlot f (.of i) := by
      rw [Slot.of_index (not_lt.mpr hge)]
      exact hind₁.trans_ne hne
    have hword := (num_eq_zero_iff hhas).mpr hnum
    rw [Slot.of_index (not_lt.mpr hge)] at hword
    have hword : v₁ (v₁.num f .indirect) i = 0#32 := hword
    rw [hind₁] at hword
    rw [heq, store_of_ne _ _ _ _ hblock.symm, hv₂]
    split_ifs
    rw [(he₁.own h).clearSlot_word hl₁ Slot.ok_indirect
      (.inr (by rwa [lastReserved_congr (he₁.nblocks h)])) fun hc => hblock (Prod.mk.inj hc).1.symm,
      hword]
    rfl
  · rw [h.truncate_word hf w (.inr hgt) (fun hc => hblock hc.1.symm)
      fun _ hr => hi ⟨hr.1, hr.2.1, hr.2.2.2⟩, hz i hi]
    rfl

/-- **Truncation keeps the pages of the free blocks clean**, if it drops only pages of zeros. -/
lemma Server.Sound.clean_truncate (h : s.Sound O) (hf : s.view.Live O f) (hc : s.Clean)
    (hz : s.DropsZero f w) (hbec : s.Becomes (s.view.truncate f w) s')
    (hsp : s.Spares f (NDIRECT < (s.view.field f F_SIZE).toNat / BY2BLK + 1 ∧
      newNblocks w < (s.view.field f F_SIZE).toNat / BY2BLK + 1) s') : s'.Clean := by
  intro b hb hfree
  have hn := (h.own.edits_truncate hf w).1.nblocks h.own
  rw [hbec.view, hn] at hb
  rw [hbec.view, h.own.free_truncate hf w hb] at hfree
  have hzero : ∀ {loads : Prop}, s.view.lastReserved < b → b ≠ f.block →
      s.Spares f loads s' → (b = s.view.num f .indirect → ¬ loads) → s.page b = Block.zero →
      s'.page b = Block.zero :=
    fun hgt hbf hsp hind hpage => (page_congr (hsp b hgt hbf hind)).trans hpage
  rcases hfree with hfree | ⟨n, hn, hlo, hhi, heq, hb0⟩ | ⟨hnew, heq, hb0⟩
  · refine hzero (h.reserved_of_free hb hfree) (h.ne_block_of_free hf hb hfree) hsp ?_
      (hc b hb hfree)
    rintro rfl
    have hne : s.view.num f .indirect ≠ 0 := by
      have := h.reserved_of_free hb hfree
      omega
    exact absurd hfree (h.own.range f .indirect hf Slot.ok_indirect hne).2.2
  · have hsl := Slot.data_of hn
    have hne : s.view.num f (.of n) ≠ 0 := heq ▸ hb0
    refine hzero (heq ▸ (h.own.range f _ hf hsl.ok hne).1)
      (heq ▸ (h.own.block_ne_num hf hsl.ok hne).symm) hsp (fun hind => ?_)
      (heq ▸ hz.data n hn hlo hhi hne)
    have hinj := (h.own.inj f _ f .indirect hf hf hsl.ok Slot.ok_indirect hne (heq.trans hind)).2
    exact absurd hinj hsl.ne_indirect
  · subst heq
    obtain ⟨hgt, -, -⟩ := h.own.range f .indirect hf Slot.ok_indirect hb0
    by_cases hload : (s.cache (s.view.num f .indirect)).isSome ∨
        NDIRECT < (s.view.field f F_SIZE).toNat / BY2BLK + 1
    · have hview := h.own.truncate_indirect (w := w) hf hnew hb0 (hz.indirect hnew hb0 hload)
      rw [← hbec.view] at hview
      rw [Server.page]
      cases hcache : s'.cache (s.view.num f .indirect) with
      | none => rfl
      | some blk =>
          rw [view_of_mapped hcache] at hview
          exact hview
    · rw [not_or] at hload
      refine hzero hgt (h.own.block_ne_indirect hf hf hb0).symm hsp (fun _ hl => hload.2 hl.1) ?_
      rw [Server.page, Option.not_isSome_iff_eq_none.mp hload.1, Option.getD_none]

lemma Server.Same.clean (h : s.Same s') (hc : s.Clean) : s'.Clean :=
  h.keeps.clean (by rw [h.becomes.view]) hc

/-- **`file_set_size` keeps them clean.** -/
lemma Server.Sound.wp_fileSetSize_clean (h : s.Sound O) (hO : f = .root ∨ f ∈ O)
    (hf : s.view.Live O f) (hc : s.Clean)
    (hz : w.toNat < (s.view.field f F_SIZE).toNat → s.DropsZero f w) :
    wp (fileSetSize f w) s (fun _ s' => s'.Clean) E Panic.Memory := by
  have hm := h.mapped hO
  rw [fileSetSize, wp_bind, loadField, wp_loadWord hm]
  have htrunc : wp (if w.toNat < (s.view.field f F_SIZE).toNat then fileTruncate f w
      else pure () : FsM Unit) s
      (fun _ s₁ => s₁.Clean ∧ s.Runs O s₁ ∧ s₁.view.Live O f) E Panic.Memory := by
    split_ifs with hlt
    · obtain ⟨he, hl⟩ := h.own.edits_truncate hf w
      refine ((h.wp_fileTruncate (E := E) hf hm w).and
        (h.wp_fileTruncate_spares (E := E) hf hm w)).mono ?_
        (fun _ _ he => he.1) fun _ hp => hp.1
      rintro - s₁ ⟨hbec, hsp⟩
      exact ⟨h.clean_truncate hf hc (hz hlt) hbec hsp, hbec.runs he, hbec.view ▸ hl⟩
    · exact ⟨hc, .refl, hf⟩
  rw [wp_bind]
  refine htrunc.mono ?_ (fun _ _ hf => hf) fun _ hp => hp
  rintro - s₁ ⟨hc₁, hr₁, hf₁⟩
  have h₁ := h.runs hr₁
  have hm₁ := hr₁.becomes.mapped _ hm
  rw [wp_bind, storeField, wp_storeWord hm₁]
  have hkeeps := h₁.keeps_field hf₁ F_SIZE w
  have hbec : s₁.Becomes (s₁.view.store f.block (f.word + F_SIZE) w) _ :=
    becomes_store (i := f.word + F_SIZE) w
  obtain ⟨he, hl⟩ := h₁.own.edits_size hf₁ w
  generalize s₁.put f.block _ = s₂ at hbec hkeeps ⊢
  have h₂ := h₁.runs (hbec.runs he)
  have hc₂ : s₂.Clean := hkeeps.clean (by rw [hbec.view]; exact he.nblocks h₁.own) hc₁
  refine (h₂.wp_flushDir hO (hbec.view ▸ hl)).mono ?_ (fun _ _ hf => hf) fun _ hp => hp
  exact fun _ s₃ hs₃ => hs₃.clean hc₂

/-- **`file_remove` keeps them clean**, after it has found the file. -/
lemma Server.Sound.wp_removeFound_clean (h : s.Sound O) (hO : f = .root ∨ f ∈ O)
    (hf₀ : s.view.Live ∅ f) (hc : s.Clean) (hz : s.DropsZero f 0#32) :
    wp (do
      fileTruncate f 0#32
      storeBlock f.block ((← loadBlock f.block).setByte (4 * f.word) 0#8)
      fileFlush f
      flushDir f) s (fun _ s' => s'.Clean) E Panic.Memory := by
  have hf := hf₀.mono (Set.empty_subset O)
  have hm := h.mapped hO
  rw [wp_bind]
  refine ((h.wp_fileTruncate (E := E) hf hm 0#32).and
    (h.wp_fileTruncate_spares (E := E) hf hm 0#32)).mono ?_ (fun _ _ he => he.1) fun _ hp => hp.1
  rintro - s₁ ⟨hbec₁, hsp⟩
  obtain ⟨he₁, hl₁⟩ := h.own.edits_truncate hf 0#32
  have h₁ := h.runs (hbec₁.runs he₁)
  have hc₁ := h.clean_truncate hf hc hz hbec₁ hsp
  have hm₁ := hbec₁.mapped _ hm
  have hf₁ : s₁.view.Live O f := hbec₁.view ▸ hl₁
  rw [wp_bind, wp_loadBlock hm₁, wp_bind, wp_storeBlock hm₁]
  have hbec₂ : s₁.Becomes (s₁.view.clearName f) _ := clearName_eq s₁.view f ▸ becomes_put _
  have hkeeps : s₁.Keeps (s₁.put f.block ((s₁.view f.block).setByte (4 * f.word) 0#8)) := by
    have hdiv : 4 * f.word / 4 = f.word + 0 := by omega
    rw [Block.setByte, hdiv]
    exact h₁.keeps_field hf₁ 0 _
  obtain ⟨he₂, hl₂⟩ : Edits O s₁.view (s₁.view.clearName f) ∧ (s₁.view.clearName f).Live O f :=
    ⟨.single (.clearName hf₁), h₁.own.live_clearName hf₁ hO hf₁⟩
  generalize s₁.put f.block _ = s₂ at hbec₂ hkeeps ⊢
  have h₂ := h₁.runs (hbec₂.runs he₂)
  have hl₂ : s₂.view.Live O f := hbec₂.view ▸ hl₂
  have hc₂ : s₂.Clean := hkeeps.clean (by rw [hbec₂.view]; exact he₂.nblocks h₁.own) hc₁
  rw [wp_bind]
  refine (h₂.wp_fileFlush hl₂ (h₂.mapped hO)).mono ?_ (fun _ _ he => he) fun _ hp => hp
  intro _ s₃ hs₃
  refine ((h₂.same hs₃).wp_flushDir hO (hs₃.becomes.view ▸ hl₂)).mono ?_ (fun _ _ he => he)
    fun _ hp => hp
  exact fun _ s₄ hs₄ => hs₄.clean (hs₃.clean hc₂)

/-! ## A new block -/

/-- A block that is put into a slot has the page that it got. -/
lemma View.Own.fill_page {v : View} (h : v.Own O) (hb : v.FirstFree b) {z : Block}
    (hf : v.Live O f) (hsl : sl.Ok) (hhas : v.HasSlot f sl) (hempty : v.num f sl = 0) :
    v.fill f sl b z b = z := by
  rw [View.fill, (h.insertable_take hb hf hsl hhas hempty).page, View.take_self]

/-- **A block that is taken while the pages of the free blocks hold zeros holds zeros.** -/
lemma Server.Sound.wp_fileGetBlock_zero (h : s.Sound O) (hf : s.view.Live O f)
    (hm : (s.cache f.block).isSome) (hc : s.Clean) (hempty : s.view.num f (.of n) = 0) :
    wp (fileGetBlock f n) s (fun b s' => s'.cache b = some Block.zero) (fun _ _ => True)
      Panic.Memory := by
  refine (h.wp_fileGetBlock hf hm (.of_clean hc)).mono ?_ (fun _ _ _ => trivial) fun _ hp => hp
  rintro b s' ⟨hn, -, -, -, hgrown, rfl, -, hmap⟩
  have hsl := Slot.data_of hn
  have hpage : s'.view (s'.view.num f (.of n)) = Block.zero := by
    generalize s'.view = v' at hgrown ⊢
    cases hgrown with
    | same hne => exact absurd hempty hne
    | @data b hhas _ hb =>
        have hz := hc b hb.lt hb.free
        rw [h.own.num_fill hb hf hsl.ok hhas hempty, h.own.fill_page hb hf hsl.ok hhas hempty, hz]
    | @both b b' hnot hb hb' =>
        obtain ⟨he, hx⟩ := h.extends_half hf (.of_clean hc) hn hnot hb
        obtain ⟨hd, hind⟩ := (hasSlot_or s.view f n).resolve_left hnot
        have hz := hc b' (hx.nblocks ▸ hb'.lt) (hx.free b' (hx.nblocks ▸ hb'.lt) hb'.free)
        have hnum : (s.view.fill f .indirect b (s.page b)).num f (.of n) = 0 := by
          rw [hc b hb.lt hb.free]
          exact h.own.num_fill_indirect hb hf hind hn hd
        have hhas := h.hasSlot_half hf hnot hb
        have hown := he.own h.own
        rw [hown.num_fill hb' (hx.live f hf) hsl.ok hhas hnum,
          hown.fill_page hb' (hx.live f hf) hsl.ok hhas hnum, hz]
  obtain ⟨blk, hblk⟩ := Option.isSome_iff_exists.mp hmap
  rw [hblk, ← view_of_mapped hblk, hpage]

end

/-! ## Runs -/

/-- A step that uses a file that still sits in a block of its directory, and frees no block with an
old page in the cache. -/
def Op.DropsZero (w : World) : Op → Prop
  | openFile _ | sync => True
  | getBlock f _ | dirty f _ | flush f | close f | write f _ _ => w.Live f
  | setSize f size => w.Live f ∧
      (size.toNat < (w.server.view.field f F_SIZE).toNat → w.server.DropsZero f size)
  | remove path => ∀ f s, fileOpen path w.server = .ok f s → s.DropsZero f 0#32

section

variable {w w' : World} {op : Op} {disk : View} {f : FileRef} {n : ℕ}

lemma Op.DropsZero.harmless (h : op.DropsZero w) (hc : w.server.Clean) : op.Harmless w := by
  cases op with
  | openFile path | remove path => exact .inr hc
  | getBlock f n => exact ⟨h, .of_clean hc⟩
  | setSize f size => exact h.1
  | dirty f offset | flush f | close f | write f n blk => exact h
  | sync => trivial

/-- **A step keeps the pages of the free blocks clean.** -/
lemma World.Inv.wp_run_clean (h : w.Inv) (hv : op.Valid w) (hd : op.DropsZero w)
    (hc : w.server.Clean) :
    wp op.run w.server (fun _ s' => s'.Clean) (fun _ s' => s'.Clean) Panic.Memory := by
  obtain ⟨O, hO, hs, -⟩ := h
  cases op with
  | openFile path =>
      rw [Op.run, wp_bind]
      refine (hs.wp_fileOpen (.inr hc) hv).mono ?_ ?_ fun _ hp => hp
      · rintro f s₁ ⟨O', h₁, -⟩
        exact h₁.keeps.clean h₁.extends_.nblocks hc
      · rintro e s₁ ⟨O', h₁⟩
        exact h₁.keeps.clean h₁.extends_.nblocks hc
  | getBlock f n =>
      rw [Op.run, wp_bind]
      refine (hs.wp_fileGetBlock (World.Live.sound hd hO) (hs.mapped (.inr (hO f hv)))
        (.of_clean hc)).mono ?_ ?_ fun _ hp => hp
      · rintro b s₁ ⟨-, hr, hk, -⟩
        exact hk.clean (hr.edits.nblocks hs.own) hc
      · rintro e s₁ ⟨hr, hk, -⟩
        exact hk.clean (hr.edits.nblocks hs.own) hc
  | setSize f size =>
      rw [Op.run, wp_bind]
      exact (hs.wp_fileSetSize_clean (.inr (hO f hv)) (hd.1.sound hO) hc hd.2).mono
        (fun _ _ hq => hq) (fun _ _ he => he) fun _ hp => hp
  | dirty f offset =>
      rw [Op.run, wp_bind]
      exact (hs.wp_fileDirty (World.Live.sound hd hO) (hs.mapped (.inr (hO f hv))) offset).mono
        (fun _ _ hs₁ => hs₁.clean hc) (fun _ _ hs₁ => hs₁.clean hc) fun _ hp => hp
  | flush f =>
      rw [Op.run, wp_bind]
      exact (hs.wp_fileFlush (World.Live.sound hd hO) (hs.mapped (.inr (hO f hv)))).mono
        (fun _ _ hs₁ => hs₁.clean hc) (fun _ _ he => he) fun _ hp => hp
  | close f =>
      rw [Op.run, wp_bind]
      exact (hs.wp_fileClose (.inr (hO f hv)) (World.Live.sound hd hO)).mono
        (fun _ _ hs₁ => hs₁.clean hc) (fun _ _ he => he) fun _ hp => hp
  | remove path =>
      rw [Op.run, wp_bind, fileRemove, wp_bind]
      refine ((hs.wp_fileOpen (.inr hc) hv).and (wp_self _ _)).mono ?_ ?_ fun _ hp => hp.1
      · rintro f s₁ ⟨⟨O', h₁, hf, hlive⟩, hopen⟩
        have hc₁ := h₁.keeps.clean h₁.extends_.nblocks hc
        exact (h₁.sound.wp_removeFound_clean hf hlive hc₁ (hd f s₁ hopen)).mono
          (fun _ _ hq => hq) (fun _ _ he => he) fun _ hp => hp
      · rintro e s₁ ⟨⟨O', h₁⟩, -⟩
        exact h₁.keeps.clean h₁.extends_.nblocks hc
  | sync =>
      rw [Op.run, wp_bind]
      exact hs.wp_fsSync.mono (fun _ _ hs₁ => hs₁.clean hc) (fun _ _ he => he) fun _ hp => hp
  | write f n blk =>
      obtain ⟨-, hreg, hn, hne, -⟩ := hv
      rw [Op.run, wp_bind, wp_modify, wp_pure]
      have hf : w.server.view.Live O f := World.Live.sound hd hO
      have hsl := Slot.data_of hn
      intro b hb hfree
      rw [view_put] at hb hfree
      rw [(hs.own.shrinks_data hf hreg hsl hne blk).nblocks] at hb
      rw [hs.own.free_data hf hsl hne blk hb] at hfree
      have hne' : b ≠ w.server.view.num f (.of n) := by
        rintro rfl
        exact (hs.own.range f _ hf hsl.ok hne).2.2 hfree
      rw [← hc b hb hfree]
      exact page_congr (Function.update_of_ne hne' _ _)

lemma World.clean_step (h : w.Inv) (hc : w.server.Clean) (hd : op.DropsZero w)
    (hstep : w.Step op w') : w'.Inv ∧ w'.server.Clean := by
  refine ⟨h.step (hd.harmless hc) hstep, ?_⟩
  obtain ⟨hv, hexec⟩ := hstep
  obtain ⟨r, s, hclean, rfl⟩ | ⟨e, s, hclean, rfl⟩ := Op.wp_of_exec hexec (h.wp_run_clean hv hd hc)
  · exact hclean
  · exact hclean

lemma World.Reaches.clean (hwf : WellFormed disk) (h : w.Reaches disk Op.DropsZero) :
    w.Inv ∧ w.server.Clean :=
  Reachable.invariant (I := fun w : World => w.Inv ∧ w.server.Clean) h
    (fun _ hw => ⟨hw.inv hwf, hw.clean hwf⟩)
    fun _ _ _ hw hstep => World.clean_step hw.1 hw.2 hstep.1 hstep.2

/-- **New blocks hold zeros** in every run in which no block with an old page in the cache is freed:
if block `n` of a file is not there, the page that `file_get_block` returns is all zeros. -/
theorem new_blocks_zero (hwf : WellFormed disk) (h : w.Reaches disk Op.DropsZero)
    (hopen : f = .root ∨ f ∈ w.opened) (hf : w.Live f)
    (hempty : w.server.view.num f (.of n) = 0) :
    wp (fileGetBlock f n) w.server (fun b s' => s'.cache b = some Block.zero) (fun _ _ => True)
      w.server.OutOfMemory := by
  obtain ⟨⟨O, hO, hs, -⟩, hc⟩ := h.clean hwf
  refine (answered_fileGetBlock f n).outOfMemory ?_
  exact hs.wp_fileGetBlock_zero (hf.sound hO) (hs.mapped (hopen.imp_right (hO f))) hc hempty

end

/-- The page that `file_get_block` returns is in the cache and has a word that is not 0. -/
def Server.getsDirty (s : Server) (f : FileRef) (n i : ℕ) : Bool :=
  match fileGetBlock f n s with
  | .ok b s' => decide (((s'.cache b).map fun blk => blk i) ≠ some 0#32)
  | _ => false

/-- **The file gets its old block with what a client wrote to it**, after it has been cut off. -/
theorem new_block_not_zero : ∃ (disk : View) (w : World) (f : FileRef) (n b : ℕ) (s' : Server),
    WellFormed disk ∧ w.Reaches disk (fun _ _ => True) ∧ f ∈ w.opened ∧ w.Live f ∧
      w.server.view.num f (.of n) = 0 ∧ fileGetBlock f n w.server = .ok b s' ∧
      s'.cache b ≠ some Block.zero := by
  have hrun : ((World.boot oneFileDisk).bind fun w =>
      stalePage.foldlM (World.next fun _ _ => True) w).any (fun w =>
        decide (FileRef.entry 3 0 ∈ w.opened ∧ w.server.view.IsDir .root ∧
          w.server.view.num .root (.direct 0) = 3 ∧ w.server.view.Named (.entry 3 0) ∧
          w.server.view.num (.entry 3 0) (.of 0) = 0) &&
        w.server.getsDirty (.entry 3 0) 0 10) = true := by
    decide +kernel
  obtain ⟨w, hw, htest⟩ := World.reaches_of_any _ _ hrun
  rw [Bool.and_eq_true, decide_eq_true_iff] at htest
  obtain ⟨⟨hopen, hdir, hnum, hnamed, hempty⟩, htest⟩ := htest
  have hlive : w.Live (.entry 3 0) := by
    have hentry : w.Live (.entry (w.server.view.num .root (.direct 0)) 0) :=
      .entry .root hdir (show 0 < NDIRECT by decide) (by rw [hnum]; decide) (by decide)
        (.inl (by rw [hnum]; exact hnamed))
    rwa [hnum] at hentry
  rw [Server.getsDirty] at htest
  split at htest
  · rename_i b s' hget
    refine ⟨oneFileDisk, w, .entry 3 0, 0, b, s', wellFormed_oneFileDisk, hw, hopen, hlive, hempty,
      hget, fun hzero => ?_⟩
    rw [hzero] at htest
    exact absurd rfl (of_decide_eq_true htest)
  · exact absurd htest Bool.false_ne_true

/-- A second block of the root of a disk that has just been mounted. -/
theorem new_blocks_zero_oneFile : ∃ w : World, w.Reaches oneFileDisk Op.DropsZero ∧
    w.server.view.num .root (.of 1) = 0 ∧
    wp (fileGetBlock .root 1) w.server (fun b s' => s'.cache b = some Block.zero)
      (fun _ _ => True) w.server.OutOfMemory := by
  have hrun : (World.boot oneFileDisk).any
      (fun w => decide (w.server.view.num .root (.of 1) = 0)) = true := by
    decide +kernel
  obtain ⟨w, hw, htest⟩ := (Option.any_eq_true _ _).mp hrun
  have hreach : w.Reaches oneFileDisk Op.DropsZero := .init (World.starts_boot hw)
  have hempty := of_decide_eq_true htest
  exact ⟨w, hreach, hempty, new_blocks_zero wellFormed_oneFileDisk hreach (.inl rfl) .root hempty⟩

end MosRv.Fs
