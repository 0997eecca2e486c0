import MosRv.Fs.Edit
import MosRv.Fs.Memory

/-!
# What the operations on files do

A server is *sound* if it is started, its view has the ownership invariant, and the open files are
in its cache.  `Grown` says what `file_map_block` with `alloc` does to the view: nothing if the
block is there, otherwise a free block is taken and put into the slot, and before it one for the
indirect block if there is none.

Each operation on a live file of a sound server ends without a panic, unless the machine is out of
memory, and what it does is a sequence of edits.
-/

namespace MosRv.Fs

open Prog View

/-- The server is started and sound. -/
structure Server.Sound (O : Set FileRef) (s : Server) : Prop where
  started : s.Started
  own : s.view.Own O
  parents : s.view.Parents O
  opened : ∀ f ∈ O, (s.cache f.block).isSome

/-- The server runs from `s` to `s'` by edits of its view. -/
structure Server.Runs (O : Set FileRef) (s s' : Server) : Prop where
  becomes : s.Becomes s'.view s'
  edits : Edits O s.view s'.view

section

variable {O : Set FileRef} {s s' s'' : Server} {v v' : View} {f g : FileRef} {sl : Slot} {b n : ℕ}

lemma Server.Runs.refl : s.Runs O s := ⟨.refl, .refl⟩

lemma Server.Runs.trans (h : s.Runs O s') (h' : s'.Runs O s'') : s.Runs O s'' :=
  ⟨h.becomes.trans h'.becomes, h.edits.trans h'.edits⟩

lemma Server.Becomes.runs (h : s.Becomes v s') (he : Edits O s.view v) : s.Runs O s' := by
  obtain rfl := h.view
  exact ⟨h, he⟩

lemma Server.Becomes.runs_same (h : s.Becomes s.view s') : s.Runs O s' := h.runs .refl

lemma Server.Sound.runs (h : s.Sound O) (hr : s.Runs O s') : s'.Sound O where
  started := h.started.becomes hr.becomes (hr.edits.nblocks h.own)
  own := hr.edits.own h.own
  parents := hr.edits.parents h.own h.parents
  opened f hf := hr.becomes.mapped _ (h.opened f hf)

/-! ## Filling a slot -/

/-- A block that was just taken can be put into an empty slot. -/
lemma View.Own.insertable_take (h : v.Own O) (hb : v.FirstFree b) {z : Block} (hf : v.Live O f)
    (hsl : sl.Ok) (hhas : v.HasSlot f sl) (hempty : v.num f sl = 0) :
    Insertable O (v.take b z) f sl b := by
  have ha := h.agree_take hb z
  have hnum : ∀ {g sl}, v.Live O g → sl.Ok → (v.take b z).num g sl = v.num g sl :=
    fun hg hsl => ha.num hg hsl
  have hn := h.nblocks_take hb z
  refine ⟨ha.live.mpr hf, hsl, ?_, by rw [hnum hf hsl, hempty], ?_, hn ▸ hb.lt, ?_, ?_⟩
  · cases sl with
    | direct i => trivial
    | indirect => trivial
    | index i =>
        change (v.take b z).num f .indirect ≠ 0
        rw [hnum hf Slot.ok_indirect]
        exact hhas
  · rw [lastReserved_congr hn]
    exact h.reserved b hb.lt hb.free
  · exact fun hfree => ((h.free_take hb hb.lt).mp hfree).2 rfl
  · intro g sl' hg hsl' heq
    have hg := ha.live.mp hg
    rw [hnum hg hsl'] at heq
    have hne : v.num g sl' ≠ 0 := by
      have := hb.ge
      omega
    exact (h.range g sl' hg hsl' hne).2.2 (heq ▸ hb.free)

lemma View.take_self {z : Block} : v.take b z b = z := Function.update_self ..

/-- … and it keeps the files apart if it holds nothing that matters there. -/
lemma View.Own.linkable_take (h : v.Own O) (hb : v.FirstFree b) {z : Block} (hf : v.Live O f)
    (hsl : sl.Ok) (hhas : v.HasSlot f sl) (hempty : v.num f sl = 0)
    (hclean : sl = .indirect ∨ v.IsDir f → z = Block.zero) : Linkable O (v.take b z) f sl b := by
  have hzero : (v.take b z).IsDir f → ∀ j k, (v.take b z).field (.entry b j) k = 0#32 := by
    intro hdir j k
    rw [(h.agree_take hb z).isDir hf] at hdir
    rw [View.field, FileRef.entry, View.take_self, hclean (.inr hdir)]
    rfl
  refine { h.insertable_take hb hf hsl hhas hempty with
    clean := fun hind => ?_
    idle := fun hdir j _ _ => ⟨fun hent => ?_, fun sl' hsl' => ?_⟩
    parent := fun hdir j _ => hzero hdir j F_DIR }
  · rw [View.take_self, hclean (.inl hind)]
  · exact absurd ((hzero hdir j F_TYPE).symm.trans hent) (by decide)
  · cases sl' with
    | direct i => rw [View.num, hzero hdir]; rfl
    | indirect => rw [View.num, hzero hdir]; rfl
    | index i => rw [View.num, if_pos (hzero hdir j F_INDIRECT)]

lemma View.Own.slotAddr_take (h : v.Own O) (hb : v.FirstFree b) {z : Block} (hf : v.Live O f) :
    (v.take b z).slotAddr f sl = v.slotAddr f sl := by
  have hind := (h.agree_take hb z).num hf Slot.ok_indirect
  cases sl with
  | direct i => rfl
  | indirect => rfl
  | index i => exact Prod.ext hind rfl

/-- What filling an empty slot does to the view. -/
def View.fill (v : View) (f : FileRef) (sl : Slot) (b : ℕ) (z : Block) : View :=
  (v.take b z).setSlot f sl b

lemma View.Own.edits_fill (h : v.Own O) (hb : v.FirstFree b) {z : Block} (hf : v.Live O f)
    (hsl : sl.Ok) (hhas : v.HasSlot f sl) (hempty : v.num f sl = 0)
    (hclean : sl = .indirect ∨ v.IsDir f → z = Block.zero) : Edits O v (v.fill f sl b z) :=
  Relation.ReflTransGen.tail (.single (.take z hb))
    (.link (h.linkable_take hb hf hsl hhas hempty hclean))

lemma View.Own.num_fill (h : v.Own O) (hb : v.FirstFree b) {z : Block} (hf : v.Live O f)
    (hsl : sl.Ok) (hhas : v.HasSlot f sl) (hempty : v.num f sl = 0) :
    (v.fill f sl b z).num f sl = b := by
  have hl := h.insertable_take (z := z) hb hf hsl hhas hempty
  have ht : (v.take b z).Own O := h.shrink (h.shrinks_take hb z)
  rw [View.fill, ht.num_setSlot hl.live hsl hl.hasSlot (hl.lt_word ht)]

lemma num_eq_zero_iff (hhas : v.HasSlot f sl) :
    v (v.slotAddr f sl).1 (v.slotAddr f sl).2 = 0#32 ↔ v.num f sl = 0 := by
  rw [num_eq hhas]
  exact ⟨fun h => by rw [h]; rfl, fun h => BitVec.eq_of_toNat_eq h⟩

/-- **What `fill_slot` does**, in terms of the view. -/
lemma Server.Sound.wp_fillSlot (h : s.Sound O) (hf : s.view.Live O f)
    (hhas : s.view.HasSlot f sl) (hm : (s.cache (s.view.slotAddr f sl).1).isSome)
    (alloc : Bool) :
    wp (fillSlot (s.view.slotAddr f sl) alloc) s
      (fun _ s' => s.view.num f sl ≠ 0 ∧ s' = s ∨ alloc = true ∧ s.view.num f sl = 0 ∧
        ∃ b, s.view.FirstFree b ∧ s.Becomes (s.view.fill f sl b (s.page b)) s' ∧
          (s'.cache b).isSome ∧ ∀ c, s.view.lastReserved < c → c ≠ b →
            c ≠ (s.view.slotAddr f sl).1 → s'.cache c = s.cache c)
      (fun e s' => s.view.num f sl = 0 ∧ (alloc = false ∧ e = .notFound ∧ s' = s ∨
        alloc = true ∧ (e = .noDisk ∨ e = .noMem) ∧ s.Becomes s.view s' ∧
          ∀ c, s.view.lastReserved < c → s'.cache c = s.cache c))
      Panic.Memory := by
  rw [fillSlot, wp_bind, wp_loadWord hm, wp_ite, num_eq_zero_iff hhas]
  refine ⟨fun hempty => ?_, fun hne => .inl ⟨hne, rfl⟩⟩
  rw [wp_ite]
  refine ⟨fun halloc => ?_, fun halloc =>
    ⟨hempty, .inl ⟨Bool.eq_false_of_not_eq_true halloc, rfl, rfl⟩⟩⟩
  rw [wp_bind]
  refine (wp_allocBlock h.started fun b hb hfree => h.own.reserved b hb hfree).mono ?_
    ?_ fun _ hp => hp
  · rintro b s₁ ⟨hb, hbec, hmb, hcache⟩
    rw [wp_storeWord (hbec.mapped _ hm)]
    refine .inr ⟨halloc, hempty, b, hb, ?_, ?_, fun c hc hcb hca => ?_⟩
    · have hfill : s.view.fill f sl b (s.page b) = s₁.view.store (s.view.slotAddr f sl).1
          (s.view.slotAddr f sl).2 (BitVec.ofNat 32 b) := by
        rw [View.fill, setSlot, h.own.slotAddr_take hb hf, hbec.view]
      rw [hfill]
      exact hbec.trans (becomes_store _)
    · exact mapped_put _ hmb
    · rw [← hcache c hc hcb]
      exact Function.update_of_ne hca _ _
  · rintro e s₁ ⟨he, hbec, hcache⟩
    exact ⟨hempty, .inr ⟨halloc, he.imp And.left id, hbec, hcache⟩⟩

/-! ## The blocks of a file -/

/-- What `file_map_block` with `alloc` does to a view; `page` are the pages that blocks get when
they are mapped. -/
inductive View.Grown (v : View) (page : ℕ → Block) (f : FileRef) (n : ℕ) : View → Prop
  | same (hne : v.num f (.of n) ≠ 0) : v.Grown page f n v
  | data {b : ℕ} (hhas : v.HasSlot f (.of n)) (hempty : v.num f (.of n) = 0) (hb : v.FirstFree b) :
      v.Grown page f n (v.fill f (.of n) b (page b))
  | both {b b' : ℕ} (hhas : ¬ v.HasSlot f (.of n)) (hb : v.FirstFree b)
      (hb' : (v.fill f .indirect b (page b)).FirstFree b') :
      v.Grown page f n ((v.fill f .indirect b (page b)).fill f (.of n) b' (page b'))

/-- What it has done when it fails. -/
inductive View.NotGrown (v : View) (page : ℕ → Block) (f : FileRef) (n : ℕ) : View → Prop
  | same : v.NotGrown page f n v
  | half {b : ℕ} (hn : n < NINDIRECT) (hhas : ¬ v.HasSlot f (.of n)) (hb : v.FirstFree b) :
      v.NotGrown page f n (v.fill f .indirect b (page b))

/-- The blocks that are free afterwards were free before, and their pages are the same. -/
def Server.Keeps (s s' : Server) : Prop :=
  ∀ c, c < s.view.nblocks → s'.view.Free c → s.view.Free c ∧ s'.page c = s.page c

/-- The pages of the free blocks hold nothing. -/
def Server.Clean (s : Server) : Prop :=
  ∀ b, b < s.view.nblocks → s.view.Free b → s.page b = Block.zero

/-- No old contents come back as an indirect block or as a block of a directory when block `n` of
the file is asked for. -/
structure Server.Ready (s : Server) (f : FileRef) (n : ℕ) : Prop where
  indirect : n < NINDIRECT → ¬ s.view.HasSlot f (.of n) →
    ∀ b, s.view.FirstFree b → s.page b = Block.zero
  dir : n < NINDIRECT → s.view.IsDir f → s.view.num f (.of n) = 0 → s.Clean

/-- Block `b` is taken as the indirect block of the file when block `n` of it is asked for. -/
def Server.TakesIndirect (s : Server) (f : FileRef) (n b : ℕ) : Prop :=
  ¬ s.view.HasSlot f (.of n) ∧ s.view.FirstFree b

/-- Block `b` is taken as block `n` of the file. -/
def Server.TakesData (s : Server) (f : FileRef) (n b : ℕ) : Prop :=
  s.view.HasSlot f (.of n) ∧ s.view.num f (.of n) = 0 ∧ s.view.FirstFree b ∨
  ¬ s.view.HasSlot f (.of n) ∧
    ∃ b₁, s.view.FirstFree b₁ ∧ (s.view.fill f .indirect b₁ (s.page b₁)).FirstFree b

lemma Server.Keeps.refl : s.Keeps s := fun _ _ hfree => ⟨hfree, rfl⟩

lemma Server.Keeps.trans (h : s.Keeps s') (h' : s'.Keeps s'')
    (hn : s'.view.nblocks = s.view.nblocks) : s.Keeps s'' := by
  intro c hc hfree
  obtain ⟨hfree', hpage'⟩ := h' c (hn ▸ hc) hfree
  obtain ⟨hfree₀, hpage⟩ := h c hc hfree'
  exact ⟨hfree₀, hpage'.trans hpage⟩

lemma Server.Keeps.clean (h : s.Keeps s') (hn : s'.view.nblocks = s.view.nblocks)
    (hc : s.Clean) : s'.Clean := by
  intro b hb hfree
  rw [hn] at hb
  obtain ⟨hfree₀, hpage⟩ := h b hb hfree
  rw [hpage]
  exact hc b hb hfree₀

lemma page_congr {c : ℕ} (h : s'.cache c = s.cache c) : s'.page c = s.page c := by
  rw [Server.page, Server.page, h]

/-- Loading a block that is in use. -/
lemma keeps_of_cache (hview : s'.view = s.view) (hused : ¬ s.view.Free b)
    (hcache : ∀ c, c ≠ b → s'.cache c = s.cache c) : s.Keeps s' := by
  intro c hc hfree
  rw [hview] at hfree
  refine ⟨hfree, page_congr (hcache c ?_)⟩
  rintro rfl
  exact hused hfree

lemma Server.Sound.keeps_of_same (h : s.Sound O) (hview : s'.view = s.view)
    (hcache : ∀ c, s.view.lastReserved < c → s'.cache c = s.cache c) : s.Keeps s' := by
  intro c hc hfree
  rw [hview] at hfree
  exact ⟨hfree, page_congr (hcache c (h.own.reserved c hc hfree))⟩

lemma View.Own.free_fill (h : v.Own O) (hb : v.FirstFree b) {z : Block} (hf : v.Live O f)
    (hsl : sl.Ok) (hhas : v.HasSlot f sl) {c : ℕ} (hc : c < v.nblocks) :
    (v.fill f sl b z).Free c ↔ v.Free c ∧ c ≠ b := by
  have ha := h.agree_take hb z
  have h₁ : (v.take b z).Own O := h.shrink (h.shrinks_take hb z)
  have hplain : (v.take b z).Plain ((v.take b z).slotAddr f sl).1
      ((v.take b z).slotAddr f sl).2 := by
    have hp := h.plain_slot hf hsl hhas
    rw [h.slotAddr_take hb hf, Plain, lastReserved_congr (h.nblocks_take hb z)]
    exact hp
  rw [View.fill, setSlot, free_store hplain (by rwa [h.nblocks_take hb z]), h.free_take hb hc]

lemma Server.Sound.keeps_fill (h : s.Sound O) (hb : s.view.FirstFree b) (hf : s.view.Live O f)
    (hsl : sl.Ok) (hhas : s.view.HasSlot f sl)
    (hbec : s.Becomes (s.view.fill f sl b (s.page b)) s')
    (hcache : ∀ c, s.view.lastReserved < c → c ≠ b → c ≠ (s.view.slotAddr f sl).1 →
      s'.cache c = s.cache c) : s.Keeps s' := by
  intro c hc hfree
  rw [hbec.view, h.own.free_fill hb hf hsl hhas hc] at hfree
  refine ⟨hfree.1, page_congr (hcache c (h.own.reserved c hc hfree.1) hfree.2 ?_)⟩
  -- the slot is in a block that is in use
  rintro rfl
  have h2 := @two_le_lastReserved s.view
  rcases h.own.meta_used (.slot hf hsl hhas) with h1 | ⟨-, -, hused⟩
  · have := h.own.reserved _ hc hfree.1
    omega
  · exact hused hfree.1

lemma Slot.of_eq_index {i : ℕ} (h : Slot.of n = .index i) : n = i ∧ NDIRECT ≤ n := by
  rw [Slot.of] at h
  split_ifs at h with hn
  obtain rfl := Slot.index.inj h
  exact ⟨rfl, not_lt.mp hn⟩

lemma Slot.of_direct (h : n < NDIRECT) : Slot.of n = .direct n := if_pos h

lemma Slot.of_index (h : ¬ n < NDIRECT) : Slot.of n = .index n := if_neg h

/-- **What `file_block_walk` does.**  It finds the slot, after it has put an indirect block there if
it had to. -/
lemma Server.Sound.wp_fileBlockWalk (h : s.Sound O) (hf : s.view.Live O f)
    (hm : (s.cache f.block).isSome) (alloc : Bool)
    (hready : n < NINDIRECT → ¬ s.view.HasSlot f (.of n) → alloc = true →
      ∀ b, s.view.FirstFree b → s.page b = Block.zero) :
    wp (fileBlockWalk f n alloc) s
      (fun ptr s' => n < NINDIRECT ∧ s.Runs O s' ∧ s.Keeps s' ∧ s'.view.Live O f ∧
        s'.view.HasSlot f (.of n) ∧ ptr = s'.view.slotAddr f (.of n) ∧ (s'.cache ptr.1).isSome ∧
        (s.view.HasSlot f (.of n) ∧ s'.view = s.view ∨ alloc = true ∧ ¬ s.view.HasSlot f (.of n) ∧
          ∃ b, s.view.FirstFree b ∧ s'.view = s.view.fill f .indirect b (s.page b)))
      (fun _ s' => s.Becomes s.view s' ∧ s.Keeps s' ∧ (n < NINDIRECT → ¬ s.view.HasSlot f (.of n)) ∧
        (alloc = false → s' = s))
      Panic.Memory := by
  rw [fileBlockWalk]
  by_cases hd : n < NDIRECT
  · rw [if_pos hd, wp_pure, Slot.of_direct hd]
    exact ⟨lt_trans hd (by decide), .refl, .refl, hf, trivial, rfl, hm, .inl ⟨trivial, rfl⟩⟩
  rw [if_neg hd, wp_ite]
  refine ⟨fun hn => ?_, fun hn => ⟨.refl, .refl, fun hlt => absurd hlt hn, fun _ => rfl⟩⟩
  rw [Slot.of_index hd] at hready ⊢
  have hsl : (Slot.index n).Ok := (Slot.of_index hd ▸ Slot.data_of hn).ok
  rw [wp_bind]
  refine (@Server.Sound.wp_fillSlot _ _ _ .indirect h hf trivial hm alloc).mono ?_ ?_ fun _ hp => hp
  · -- the indirect block is there; load it
    have hload : ∀ s₁ : Server, s.Runs O s₁ → s.Keeps s₁ → s₁.view.Live O f →
        s₁.view.num f .indirect ≠ 0 →
        (s.view.HasSlot f (.index n) ∧ s₁.view = s.view ∨ alloc = true ∧
          ¬ s.view.HasSlot f (.index n) ∧
          ∃ b, s.view.FirstFree b ∧ s₁.view = s.view.fill f .indirect b (s.page b)) →
        wp (do let b ← loadField f F_INDIRECT; let _ ← readBlock b.toNat; pure (b.toNat, n)) s₁
          (fun ptr s' => n < NINDIRECT ∧ s.Runs O s' ∧ s.Keeps s' ∧ s'.view.Live O f ∧
            s'.view.HasSlot f (.index n) ∧ ptr = s'.view.slotAddr f (.index n) ∧
              (s'.cache ptr.1).isSome ∧
            (s.view.HasSlot f (.index n) ∧ s'.view = s.view ∨ alloc = true ∧
              ¬ s.view.HasSlot f (.index n) ∧
              ∃ b, s.view.FirstFree b ∧ s'.view = s.view.fill f .indirect b (s.page b)))
          (fun _ s' => s.Becomes s.view s' ∧ s.Keeps s' ∧
            (n < NINDIRECT → ¬ s.view.HasSlot f (.index n)) ∧
            (alloc = false → s' = s))
          Panic.Memory := by
      intro s₁ hr hk hlive hne hcase
      have h₁ := h.runs hr
      obtain ⟨-, hlt, hused⟩ := h₁.own.range f .indirect hlive Slot.ok_indirect hne
      rw [wp_bind, loadField, wp_loadWord (hr.becomes.mapped _ hm), wp_bind]
      refine (wp_readBlock (P := Panic.Memory) h₁.started hlt hused rfl).mono ?_
        (fun _ _ hf => hf) fun _ hp => hp
      rintro - s₂ ⟨hbec, hmap, hcache⟩
      rw [wp_pure]
      have hview := hbec.view
      refine ⟨hn, hr.trans hbec.runs_same, hk.trans (keeps_of_cache hview hused hcache)
        (hr.edits.nblocks h.own), ?_, ?_, ?_, hmap, ?_⟩
      · rwa [hview]
      · rw [hview]
        exact hne
      · rw [hview]
        rfl
      · rwa [hview]
    rintro - s₁ (⟨hne, rfl⟩ | ⟨halloc, hempty, b, hb, hbec, -, hcache⟩)
    · exact hload s₁ .refl .refl hf hne (.inl ⟨hne, rfl⟩)
    · have hnot : ¬ s.view.HasSlot f (.index n) := fun hhas => hhas hempty
      have hzero := hready hn hnot halloc b hb
      have hedits := h.own.edits_fill (z := s.page b) hb hf Slot.ok_indirect trivial hempty
        fun _ => hzero
      have hl := h.own.linkable_take (z := s.page b) hb hf Slot.ok_indirect trivial hempty
        fun _ => hzero
      have h₁ : (s.view.take b (s.page b)).Own O := h.own.shrink (h.own.shrinks_take hb _)
      refine hload s₁ (hbec.runs hedits)
        (h.keeps_fill hb hf Slot.ok_indirect trivial hbec hcache) ?_ ?_
        (.inr ⟨halloc, hnot, b, hb, hbec.view⟩)
      · rw [hbec.view]
        exact hl.live_mono h₁ hl.live
      · rw [hbec.view, h.own.num_fill hb hf Slot.ok_indirect trivial hempty]
        have := hb.ge
        omega
  · rintro e s₁ ⟨hempty, ⟨halloc, -, rfl⟩ | ⟨halloc, -, hbec, hcache⟩⟩
    · exact ⟨.refl, .refl, fun _ hhas => hhas hempty, fun _ => rfl⟩
    · exact ⟨hbec, h.keeps_of_same hbec.view hcache, fun _ hhas => hhas hempty,
        fun hc => absurd (halloc.symm.trans hc) (by decide)⟩

/-- A new indirect block has no blocks in it. -/
lemma View.Own.num_fill_indirect (h : v.Own O) (hb : v.FirstFree b) (hf : v.Live O f)
    (hempty : v.num f .indirect = 0) (hn : n < NINDIRECT) (hd : ¬ n < NDIRECT) :
    (v.fill f .indirect b Block.zero).num f (.of n) = 0 := by
  have hsl := Slot.data_of hn
  have hl := h.linkable_take (z := Block.zero) hb hf Slot.ok_indirect trivial hempty fun _ => rfl
  have h₁ : (v.take b Block.zero).Own O := h.shrink (h.shrinks_take hb _)
  by_contra hne
  rcases hl.num h₁ hl.live hsl.ok hne with ⟨⟨-, heq⟩, -⟩ | heq
  · exact hsl.ne_indirect heq.symm
  · have hzero : v.num f (.of n) = 0 := by
      rw [Slot.of_index hd]
      exact num_index_eq_zero hempty
    rw [(h.agree_take hb _).num hf hsl.ok, hzero] at heq
    exact hne heq

lemma hasSlot_or (v : View) (f : FileRef) (n : ℕ) :
    v.HasSlot f (.of n) ∨ ¬ n < NDIRECT ∧ v.num f .indirect = 0 := by
  by_cases hd : n < NDIRECT
  · rw [Slot.of_direct hd]
    exact .inl trivial
  · rw [Slot.of_index hd]
    by_cases h0 : v.num f .indirect = 0
    · exact .inr ⟨hd, h0⟩
    · exact .inl h0

/-- **What `file_map_block` with `alloc` does.** -/
lemma Server.Sound.wp_fileMapBlock (h : s.Sound O) (hf : s.view.Live O f)
    (hm : (s.cache f.block).isSome) (hready : s.Ready f n) :
    wp (fileMapBlock f n true) s
      (fun b s' => n < NINDIRECT ∧ s.Runs O s' ∧ s.Keeps s' ∧ s'.view.Live O f ∧
        s.view.Grown s.page f n s'.view ∧ b = s'.view.num f (.of n) ∧ b ≠ 0)
      (fun _ s' => s.Runs O s' ∧ s.Keeps s' ∧ s.view.NotGrown s.page f n s'.view)
      Panic.Memory := by
  rw [fileMapBlock, wp_bind]
  refine (h.wp_fileBlockWalk hf hm true fun hn hhas _ => hready.indirect hn hhas).mono ?_
    ?_ fun _ hp => hp
  · rintro ptr s₁ ⟨hn, hr, hk, hlive, hhas, rfl, hmap, hcase⟩
    have h₁ := h.runs hr
    have hnb := hr.edits.nblocks h.own
    have hsl := Slot.data_of hn
    rw [wp_bind]
    refine (h₁.wp_fillSlot hlive hhas hmap true).mono ?_ ?_ fun _ hp => hp
    · rintro - s₂ (⟨hne, rfl⟩ | ⟨-, hempty, b, hb, hbec, -, hcache⟩)
      · -- the slot was filled already
        rw [wp_bind, wp_loadWord hmap, wp_pure, ← num_eq hhas]
        refine ⟨hn, hr, hk, hlive, ?_, rfl, hne⟩
        rcases hcase with ⟨-, hview⟩ | ⟨-, hnot, b, hb, hview⟩
        · rw [hview] at hne ⊢
          exact .same hne
        · -- not in a new indirect block
          obtain ⟨hd, hempty⟩ := (hasSlot_or s.view f n).resolve_left hnot
          rw [hready.indirect hn hnot b hb] at hview
          rw [hview] at hne
          exact absurd (h.own.num_fill_indirect hb hf hempty hn hd) hne
      · have hpage : s₁.page b = s.page b := (hk b (hnb ▸ hb.lt) hb.free).2
        have hzero : s₁.view.IsDir f → s₁.page b = Block.zero := by
          intro hdir
          rw [hpage]
          have hclean : s.Clean := by
            rcases hcase with ⟨-, hview⟩ | ⟨-, hnot, c, hc, hview⟩
            · rw [hview] at hdir hempty
              exact hready.dir hn hdir hempty
            · refine hready.dir hn ?_ (num_of_not_hasSlot hnot)
              obtain ⟨-, hind⟩ := (hasSlot_or s.view f n).resolve_left hnot
              have hl := h.own.linkable_take (z := s.page c) hc hf Slot.ok_indirect trivial hind
                fun _ => hready.indirect hn hnot c hc
              have ht : (s.view.take c (s.page c)).Own O :=
                h.own.shrink (h.own.shrinks_take hc _)
              rw [hview, View.fill, ht.isDir_setSlot hl.live hl.live hl.ok hl.hasSlot,
                (h.own.agree_take hc _).isDir hf] at hdir
              exact hdir
          exact hclean b (hnb ▸ hb.lt) (hk b (hnb ▸ hb.lt) hb.free).1
        have hclean : Slot.of n = .indirect ∨ s₁.view.IsDir f → s₁.page b = Block.zero :=
          fun hor => hzero (hor.resolve_left hsl.ne_indirect)
        have hedits := h₁.own.edits_fill hb hlive hsl.ok hhas hempty hclean
        have hl := h₁.own.linkable_take hb hlive hsl.ok hhas hempty hclean
        have ht : (s₁.view.take b (s₁.page b)).Own O :=
          h₁.own.shrink (h₁.own.shrinks_take hb _)
        have hlive₂ : s₂.view.Live O f := by
          rw [hbec.view]
          exact hl.live_mono ht hl.live
        have hnum : s₂.view.num f (.of n) = b := by
          rw [hbec.view, h₁.own.num_fill hb hlive hsl.ok hhas hempty]
        have hb0 : b ≠ 0 := by
          have := hb.ge
          omega
        have hhas₂ := hasSlot_of_num_ne_zero (hnum.trans_ne hb0)
        have haddr : s₂.view.slotAddr f (.of n) = s₁.view.slotAddr f (.of n) := by
          by_cases hd : n < NDIRECT
          · rw [Slot.of_direct hd]
            rfl
          · rw [Slot.of_index hd] at hhas ⊢
            refine Prod.ext ?_ rfl
            change s₂.view.num f .indirect = s₁.view.num f .indirect
            rw [hbec.view, View.fill, hl.num_of_ne_zero ht hl.live Slot.ok_indirect,
              (h₁.own.agree_take hb _).num hlive Slot.ok_indirect]
            rw [(h₁.own.agree_take hb _).num hlive Slot.ok_indirect]
            exact hhas
        rw [wp_bind, ← haddr, wp_loadWord (haddr ▸ hbec.mapped _ hmap), wp_pure, ← num_eq hhas₂]
        refine ⟨hn, hr.trans (hbec.runs hedits),
          hk.trans (h₁.keeps_fill hb hlive hsl.ok hhas hbec hcache) hnb, hlive₂, ?_, rfl,
          hnum.trans_ne hb0⟩
        rw [hbec.view, hpage]
        rcases hcase with ⟨hhas₀, hview⟩ | ⟨-, hnot, c, hc, hview⟩
        · rw [hview] at hb hempty ⊢
          exact .data hhas₀ hempty hb
        · rw [hview] at hb ⊢
          exact .both hnot hc hb
    · rintro e s₂ ⟨-, ⟨hfalse, -⟩ | ⟨-, -, hbec, hcache⟩⟩
      · exact absurd hfalse (by decide)
      · refine ⟨hr.trans hbec.runs_same, hk.trans (h₁.keeps_of_same hbec.view hcache) hnb, ?_⟩
        rw [hbec.view]
        rcases hcase with ⟨-, hview⟩ | ⟨-, hnot, c, hc, hview⟩
        · rw [hview]
          exact .same
        · rw [hview]
          exact .half hn hnot hc
  · rintro e s₁ ⟨hbec, hk, -⟩
    refine ⟨hbec.runs_same, hk, ?_⟩
    rw [hbec.view]
    exact .same

/-- `file_map_block` without `alloc` looks the block up. -/
lemma Server.Sound.wp_fileMapBlock_lookup (h : s.Sound O) (hf : s.view.Live O f)
    (hm : (s.cache f.block).isSome) :
    wp (fileMapBlock f n false) s
      (fun b s' => n < NINDIRECT ∧ s.Becomes s.view s' ∧ s.Keeps s' ∧ b = s.view.num f (.of n) ∧
        b ≠ 0)
      (fun _ s' => s.Becomes s.view s' ∧ s.Keeps s' ∧ (n < NINDIRECT → s.view.num f (.of n) = 0))
      Panic.Memory := by
  rw [fileMapBlock, wp_bind]
  refine (h.wp_fileBlockWalk hf hm false fun _ _ hc => absurd hc (by decide)).mono ?_
    ?_ fun _ hp => hp
  · rintro ptr s₁ ⟨hn, hr, hk, hlive, hhas, rfl, hmap, ⟨-, hview⟩ | ⟨hc, -⟩⟩
    · have hbec : s.Becomes s.view s₁ := hview ▸ hr.becomes
      rw [wp_bind]
      refine ((h.runs hr).wp_fillSlot hlive hhas hmap false).mono ?_ ?_ fun _ hp => hp
      · rintro - s₂ (⟨hne, rfl⟩ | ⟨hc, -⟩)
        · rw [wp_bind, wp_loadWord hmap, wp_pure, ← num_eq hhas]
          exact ⟨hn, hbec, hk, by rw [hview], hne⟩
        · exact absurd hc (by decide)
      · rintro e s₂ ⟨hempty, ⟨-, -, rfl⟩ | ⟨hc, -⟩⟩
        · exact ⟨hbec, hk, fun _ => hview ▸ hempty⟩
        · exact absurd hc (by decide)
    · exact absurd hc (by decide)
  · rintro e s₁ ⟨hbec, hk, hhas, -⟩
    exact ⟨hbec, hk, fun hn => num_of_not_hasSlot (hhas hn)⟩

/-- **What `file_get_block` does.** -/
lemma Server.Sound.wp_fileGetBlock (h : s.Sound O) (hf : s.view.Live O f)
    (hm : (s.cache f.block).isSome) (hready : s.Ready f n) :
    wp (fileGetBlock f n) s
      (fun b s' => n < NINDIRECT ∧ s.Runs O s' ∧ s.Keeps s' ∧ s'.view.Live O f ∧
        s.view.Grown s.page f n s'.view ∧ b = s'.view.num f (.of n) ∧ b ≠ 0 ∧
        (s'.cache b).isSome)
      (fun _ s' => s.Runs O s' ∧ s.Keeps s' ∧ s.view.NotGrown s.page f n s'.view)
      Panic.Memory := by
  rw [fileGetBlock, wp_bind]
  refine (h.wp_fileMapBlock hf hm hready).mono ?_ (fun _ _ he => he) fun _ hp => hp
  rintro b s₁ ⟨hn, hr, hk, hlive, hgrown, rfl, hne⟩
  have h₁ := h.runs hr
  obtain ⟨-, hlt, hused⟩ := h₁.own.range f (.of n) hlive (Slot.data_of hn).ok hne
  rw [wp_bind]
  refine (wp_readBlock (P := Panic.Memory) h₁.started hlt hused rfl).mono ?_ (fun _ _ hf => hf)
    fun _ hp => hp
  rintro - s₂ ⟨hbec, hmap, hcache⟩
  rw [wp_pure]
  have hview := hbec.view
  refine ⟨hn, hr.trans hbec.runs_same, hk.trans (keeps_of_cache hview hused hcache)
    (hr.edits.nblocks h.own), ?_, ?_, ?_, hne, hmap⟩
  · rwa [hview]
  · rwa [hview]
  · rw [hview]

/-! ## What growing keeps -/

/-- The files of a view are still there, with their blocks, names, sizes and types. -/
structure View.Extends (O : Set FileRef) (v v' : View) : Prop where
  live : ∀ g, v.Live O g → v'.Live O g
  num : ∀ g sl, v.Live O g → sl.Ok → v.num g sl ≠ 0 → v'.num g sl = v.num g sl
  field : ∀ g k, v.Live O g → k < F_DIRECT → v'.field g k = v.field g k
  free : ∀ b, b < v.nblocks → v'.Free b → v.Free b
  nblocks : v'.nblocks = v.nblocks

lemma View.Extends.refl : Extends O v v :=
  ⟨fun _ h => h, fun _ _ _ _ _ => rfl, fun _ _ _ _ => rfl, fun _ _ h => h, rfl⟩

lemma View.Extends.trans {v'' : View} (h : Extends O v v') (h' : Extends O v' v'') :
    Extends O v v'' where
  live g hg := h'.live g (h.live g hg)
  num g sl hg hsl hne := by
    have heq := h.num g sl hg hsl hne
    exact (h'.num g sl (h.live g hg) hsl (heq ▸ hne)).trans heq
  field g k hg hk := (h'.field g k (h.live g hg) hk).trans (h.field g k hg hk)
  free b hb hfree := h.free b hb (h'.free b (h.nblocks ▸ hb) hfree)
  nblocks := h'.nblocks.trans h.nblocks

lemma View.Extends.isDir (h : Extends O v v') (hg : v.Live O g) : v'.IsDir g ↔ v.IsDir g := by
  rw [IsDir, IsDir, h.field g F_TYPE hg (by decide)]

lemma View.Own.extends_take (h : v.Own O) (hb : v.FirstFree b) (z : Block) :
    Extends O v (v.take b z) where
  live _ := (h.agree_take hb z).live.mpr
  num _ _ hg hsl _ := (h.agree_take hb z).num hg hsl
  field g k hg _ := by
    rw [View.field, View.field, h.take_of_ne hb]
    rcases h.meta_used (.type hg) with h1 | ⟨hgt, -, hused⟩
    · exact .inl h1
    · exact .inr ⟨hgt, fun heq => hused (heq ▸ hb.free)⟩
  free _ hc hfree := ((h.free_take hb hc).mp hfree).1
  nblocks := h.nblocks_take hb z

lemma View.Insertable.extends_ (hl : Insertable O v f sl b) (h : v.Own O) :
    Extends O v (v.setSlot f sl b) where
  live _ := hl.live_mono h
  num _ _ hg hsl hne := hl.num_of_ne_zero h hg hsl hne
  field g k hg hk := by
    refine field_store fun hc => ?_
    exact h.slot_ne_field hl.live hg hl.ok hl.hasSlot (lt_trans hk (by decide)) (.inl hk)
      (Prod.ext hc.1.symm hc.2.symm)
  free _ hc := (free_store (h.plain_slot hl.live hl.ok hl.hasSlot) hc).mp
  nblocks := nblocks_store_plain (h.plain_slot hl.live hl.ok hl.hasSlot)

lemma View.Own.extends_fill (h : v.Own O) (hb : v.FirstFree b) {z : Block} (hf : v.Live O f)
    (hsl : sl.Ok) (hhas : v.HasSlot f sl) (hempty : v.num f sl = 0) :
    Extends O v (v.fill f sl b z) :=
  (h.extends_take hb z).trans
    ((h.insertable_take hb hf hsl hhas hempty).extends_ (h.shrink (h.shrinks_take hb z)))

/-- A new indirect block extends the view. -/
lemma Server.Sound.extends_half (h : s.Sound O) (hf : s.view.Live O f) (hready : s.Ready f n)
    (hn : n < NINDIRECT) (hnot : ¬ s.view.HasSlot f (.of n)) (hb : s.view.FirstFree b) :
    Edits O s.view (s.view.fill f .indirect b (s.page b)) ∧
      Extends O s.view (s.view.fill f .indirect b (s.page b)) := by
  obtain ⟨-, hempty⟩ := (hasSlot_or s.view f n).resolve_left hnot
  have hzero : Slot.indirect = .indirect ∨ s.view.IsDir f → s.page b = Block.zero :=
    fun _ => hready.indirect hn hnot b hb
  exact ⟨h.own.edits_fill hb hf Slot.ok_indirect trivial hempty hzero,
    h.own.extends_fill hb hf Slot.ok_indirect trivial hempty⟩

lemma Server.Sound.hasSlot_half (h : s.Sound O) (hf : s.view.Live O f)
    (hnot : ¬ s.view.HasSlot f (.of n)) (hb : s.view.FirstFree b) :
    (s.view.fill f .indirect b (s.page b)).HasSlot f (.of n) := by
  obtain ⟨hd, hempty⟩ := (hasSlot_or s.view f n).resolve_left hnot
  rw [Slot.of_index hd]
  change (s.view.fill f .indirect b (s.page b)).num f .indirect ≠ 0
  rw [h.own.num_fill hb hf Slot.ok_indirect trivial hempty]
  have := hb.ge
  omega

/-- **A file that grows** keeps what it has, and so do the others. -/
lemma Server.Sound.extends_grown (h : s.Sound O) (hf : s.view.Live O f) (hready : s.Ready f n)
    (hn : n < NINDIRECT) (hg : s.view.Grown s.page f n v) : Extends O s.view v := by
  have hsl := Slot.data_of hn
  cases hg with
  | same => exact .refl
  | @data b hhas hempty hb =>
      exact h.own.extends_fill hb hf hsl.ok hhas hempty
  | @both b b' hnot hb hb' =>
      obtain ⟨he, hx⟩ := h.extends_half hf hready hn hnot hb
      obtain ⟨hd, hempty⟩ := (hasSlot_or s.view f n).resolve_left hnot
      have hnum : (s.view.fill f .indirect b (s.page b)).num f (.of n) = 0 := by
        rw [hready.indirect hn hnot b hb]
        exact h.own.num_fill_indirect hb hf hempty hn hd
      have hhas := h.hasSlot_half hf hnot hb
      exact hx.trans ((he.own h.own).extends_fill hb' (hx.live f hf) hsl.ok hhas hnum)

lemma Server.Sound.extends_notGrown (h : s.Sound O) (hf : s.view.Live O f) (hready : s.Ready f n)
    (hg : s.view.NotGrown s.page f n v) : Extends O s.view v := by
  cases hg with
  | same => exact .refl
  | half hn hnot hb => exact (h.extends_half hf hready hn hnot hb).2

/-- A client that writes to a page of a regular file changes no file. -/
lemma View.Own.extends_data (h : v.Own O) (hf : v.Live O f) (hreg : ¬ v.IsDir f)
    (hsl : sl.Data) (hne : v.num f sl ≠ 0) (blk : Block) :
    Extends O v (Function.update v (v.num f sl) blk) where
  live _ := (h.agree_data hf hreg hsl hne blk).live.mpr
  num _ _ hg hsl' _ := (h.agree_data hf hreg hsl hne blk).num hg hsl'
  field g k hg _ := by
    rw [View.field, Function.update_of_ne (h.meta_ne_data hf hreg hsl hne (.type hg)), View.field]
  free _ hb := (h.free_data hf hsl hne blk hb).mp
  nblocks := (h.shrinks_data hf hreg hsl hne blk).nblocks

/-! ## Freeing blocks -/

/-- Block `n` of the file is freed, if there is one. -/
def View.clearBlock (v : View) (f : FileRef) (n : ℕ) : View :=
  if n < NINDIRECT ∧ v.num f (.of n) ≠ 0 then v.unlink f (.of n) else v

/-- The blocks from `lo` on are freed, `k` of them. -/
def View.clearBlocks (v : View) (f : FileRef) (lo : ℕ) : ℕ → View
  | 0 => v
  | k + 1 => (v.clearBlocks f lo k).clearBlock f (lo + k)

/-- A slot is emptied, if it is not empty. -/
def View.clearSlot (v : View) (f : FileRef) (sl : Slot) : View :=
  if v.num f sl ≠ 0 then v.unlink f sl else v

/-- A slot is emptied: the files stay live, unless a directory loses the block that they sit in. -/
lemma View.Own.live_emptied (h : v.Own O) (hf : v.Live O f) (hsl : sl.Ok) (hhas : v.HasSlot f sl)
    (hg : v.Live O g) :
    (v.setSlot f sl 0).Live O g ∨ v.IsDir f ∧ (v.setSlot f sl 0).Live O f := by
  -- by induction along the path to a file: it is live, or `f` is met before it
  induction hg with
  | root => exact .inl .root
  | @entry d sl' j hd hdir hsl' hb hj hn ih =>
      rcases ih with hd' | hf'
      · by_cases hdf : f = d
        · subst hdf
          exact .inr ⟨hdir, hd'⟩
        · left
          have heq : (v.setSlot f sl 0).num d sl' = v.num d sl' :=
            h.num_setSlot_of_ne hf hd hsl hsl'.ok hhas (fun hc => hdf hc.1) fun hc => hdf hc.2.1
          have hn' := hn.imp_left (h.named_setSlot hf hsl hhas (b := 0) hd hsl' hb).mpr
          rw [← heq] at hb hn' ⊢
          exact .entry hd' ((h.isDir_setSlot hf hd hsl hhas).mpr hdir) hsl' hb hj hn'
      · exact .inr hf'

lemma View.Own.agree_unlink (h : v.Own O) (hf : v.Live O f) (hsl : sl.Ok) (hne : v.num f sl ≠ 0) :
    Agree O (v.setSlot f sl 0) (v.unlink f sl) := by
  have hs := h.shrinks_emptied hf hsl (hasSlot_of_num_ne_zero hne)
  refine (h.shrink hs).agree_setFree ?_
  rw [hs.nblocks]
  exact (h.range f sl hf hsl hne).2.1

/-- A file from which a block is taken stays live: its directory is another file. -/
lemma View.Own.live_unlink (h : v.Own O) (hf : v.Live O f) (hsl : sl.Ok) (hne : v.num f sl ≠ 0) :
    (v.unlink f sl).Live O f := by
  rw [(h.agree_unlink hf hsl hne).live]
  exact (h.live_emptied hf hsl (hasSlot_of_num_ne_zero hne) hf).elim id And.right

lemma View.Own.edits_clearSlot (h : v.Own O) (hf : v.Live O f) (hsl : sl.Ok) :
    Edits O v (v.clearSlot f sl) ∧ (v.clearSlot f sl).Live O f := by
  rw [View.clearSlot]
  split_ifs with hne
  · exact ⟨.single (.unlink hf hsl hne), h.live_unlink hf hsl hne⟩
  · exact ⟨.refl, hf⟩

lemma View.clearBlock_eq (hn : n < NINDIRECT) : v.clearBlock f n = v.clearSlot f (.of n) := by
  simp only [View.clearBlock, View.clearSlot, hn, true_and]

lemma View.clearBlock_of_ge (hn : ¬ n < NINDIRECT) : v.clearBlock f n = v :=
  if_neg fun hc => hn hc.1

lemma View.Own.edits_clearBlocks (h : v.Own O) (hf : v.Live O f) (lo k : ℕ) :
    Edits O v (v.clearBlocks f lo k) ∧ (v.clearBlocks f lo k).Live O f := by
  induction k with
  | zero => exact ⟨.refl, hf⟩
  | succ k ih =>
      rw [View.clearBlocks]
      by_cases hn : lo + k < NINDIRECT
      · rw [View.clearBlock_eq hn]
        obtain ⟨he, hl⟩ := (ih.1.own h).edits_clearSlot ih.2 (Slot.data_of hn).ok
        exact ⟨ih.1.trans he, hl⟩
      · rw [View.clearBlock_of_ge hn]
        exact ih

/-- **What emptying a slot does.** -/
lemma Server.Sound.wp_clearSlot (h : s.Sound O) (hf : s.view.Live O f) (hsl : sl.Ok)
    (hhas : s.view.HasSlot f sl) (hm : (s.cache (s.view.slotAddr f sl).1).isSome)
    {E : FsErr → Server → Prop} {P : Panic → Prop} :
    wp (clearSlot (s.view.slotAddr f sl)) s
      (fun _ s' => s.Becomes (s.view.clearSlot f sl) s') E P := by
  rw [clearSlot, wp_bind, wp_loadWord hm, wp_ite, num_eq_zero_iff hhas, View.clearSlot]
  refine ⟨fun hempty => ?_, fun hne => ?_⟩
  · rw [if_neg (not_not.mpr hempty)]
    exact .refl
  · rw [if_pos hne, wp_bind, ← num_eq hhas]
    obtain ⟨-, hlt, -⟩ := h.own.range f sl hf hsl hne
    refine (wp_freeBlock h.started hne hlt).mono ?_ (fun _ _ hf => hf) fun _ hp => hp
    rintro - s₁ ⟨hbec, -⟩
    rw [wp_storeWord (hbec.mapped _ hm), ← h.own.unlink_eq hf hsl hne, ← hbec.view]
    exact hbec.trans (becomes_store _)

lemma Server.Sound.wp_fileClearBlock (h : s.Sound O) (hf : s.view.Live O f)
    (hm : (s.cache f.block).isSome) :
    wp (fileClearBlock f n) s (fun _ s' => s.Becomes (s.view.clearBlock f n) s')
      (fun _ s' => s.Becomes (s.view.clearBlock f n) s') Panic.Memory := by
  rw [fileClearBlock, wp_bind]
  refine (h.wp_fileBlockWalk hf hm false fun _ _ hc => absurd hc (by decide)).mono ?_
    ?_ fun _ hp => hp
  · rintro ptr s₁ ⟨hn, hr, -, hlive, hhas, rfl, hmap, ⟨-, hview⟩ | ⟨hc, -⟩⟩
    · refine ((h.runs hr).wp_clearSlot hlive (Slot.data_of hn).ok hhas hmap).mono ?_
        (fun _ _ hf => hf) fun _ hp => hp
      intro _ s₂ hbec
      rw [View.clearBlock_eq hn, ← hview]
      exact hr.becomes.trans hbec
    · exact absurd hc (by decide)
  · rintro e s₁ ⟨hbec, -, hnot, hsame⟩
    obtain rfl := hsame rfl
    by_cases hn : n < NINDIRECT
    · rw [View.clearBlock, if_neg (fun hc => hc.2 (num_of_not_hasSlot (hnot hn)))]
      exact .refl
    · rw [View.clearBlock_of_ge hn]
      exact .refl

lemma Server.Sound.wp_clearBlocks (h : s.Sound O) (hf : s.view.Live O f)
    (hm : (s.cache f.block).isSome) (new old : ℕ) {E : FsErr → Server → Prop} :
    wp (clearBlocks f new old) s
      (fun _ s' => s.Becomes (s.view.clearBlocks f new (old - new)) s') E Panic.Memory := by
  rw [clearBlocks]
  have hloop := @wp_forRange _ _ _ E Panic.Memory
    (fun bno => do let _ ← attempt (fileClearBlock f bno))
    (fun i s' => s.Becomes (s.view.clearBlocks f new (i - new)) s') (old - new) new (s := s)
    (by rw [Nat.sub_self]; exact .refl) ?_
  · simpa using hloop
  intro i s₁ hi _ hbec
  obtain ⟨hedits, hlive⟩ := h.own.edits_clearBlocks hf new (i - new)
  have hr := hbec.runs hedits
  have h₁ := h.runs hr
  have hstep : i + 1 - new = (i - new) + 1 := by omega
  have hidx : new + (i - new) = i := by omega
  rw [wp_bind, wp_attempt]
  refine (h₁.wp_fileClearBlock (hbec.view ▸ hlive) (hbec.mapped _ hm)).mono ?_ ?_ fun _ hp => hp
  · intro _ s₂ hbec₂
    rw [wp_pure, hstep, View.clearBlocks, hidx, ← hbec.view]
    exact hbec.trans hbec₂
  · intro _ s₂ hbec₂
    rw [wp_pure, hstep, View.clearBlocks, hidx, ← hbec.view]
    exact hbec.trans hbec₂

/-! ## Sizes -/

/-- What `file_truncate` does to a view. -/
def View.truncate (v : View) (f : FileRef) (newsize : Word) : View :=
  let new := newNblocks newsize
  let v₁ := v.clearBlocks f new ((v.field f F_SIZE).toNat / BY2BLK + 1 - new)
  let v₂ := if new ≤ NDIRECT then v₁.clearSlot f .indirect else v₁
  v₂.store f.block (f.word + F_SIZE) newsize

/-- What `file_set_size` does to a view. -/
def View.setSize (v : View) (f : FileRef) (newsize : Word) : View :=
  let v₁ := if newsize.toNat < (v.field f F_SIZE).toNat then v.truncate f newsize else v
  v₁.store f.block (f.word + F_SIZE) newsize

lemma View.Own.edits_size (h : v.Own O) (hf : v.Live O f) (w : Word) :
    Edits O v (v.store f.block (f.word + F_SIZE) w) ∧
      (v.store f.block (f.word + F_SIZE) w).Live O f := by
  have hagree := h.agree_field hf (k := F_SIZE) (by decide) (by decide) w
  exact ⟨.single (.size w hf), hagree.live.mpr hf⟩

lemma View.Own.edits_clearIndirect (h : v.Own O) (hf : v.Live O f) (new : ℕ) :
    Edits O v (if new ≤ NDIRECT then v.clearSlot f .indirect else v) ∧
      (if new ≤ NDIRECT then v.clearSlot f .indirect else v).Live O f := by
  split_ifs
  · exact h.edits_clearSlot hf Slot.ok_indirect
  · exact ⟨.refl, hf⟩

lemma View.Own.edits_truncate (h : v.Own O) (hf : v.Live O f) (w : Word) :
    Edits O v (v.truncate f w) ∧ (v.truncate f w).Live O f := by
  obtain ⟨he₁, hl₁⟩ := h.edits_clearBlocks hf (newNblocks w)
    ((v.field f F_SIZE).toNat / BY2BLK + 1 - newNblocks w)
  obtain ⟨he₂, hl₂⟩ := (he₁.own h).edits_clearIndirect hl₁ (newNblocks w)
  have he₁₂ : Edits O v _ := he₁.trans he₂
  obtain ⟨he₃, hl₃⟩ := (he₁₂.own h).edits_size hl₂ w
  exact ⟨he₁₂.trans he₃, hl₃⟩

lemma View.Own.edits_setSize (h : v.Own O) (hf : v.Live O f) (w : Word) :
    Edits O v (v.setSize f w) ∧ (v.setSize f w).Live O f := by
  rw [View.setSize]
  have h₁ : Edits O v (if w.toNat < (v.field f F_SIZE).toNat then v.truncate f w else v) ∧
      (if w.toNat < (v.field f F_SIZE).toNat then v.truncate f w else v).Live O f := by
    split_ifs
    · exact h.edits_truncate hf w
    · exact ⟨.refl, hf⟩
  obtain ⟨he, hl⟩ := (h₁.1.own h).edits_size h₁.2 w
  exact ⟨h₁.1.trans he, hl⟩

lemma Server.Sound.wp_fileTruncate (h : s.Sound O) (hf : s.view.Live O f)
    (hm : (s.cache f.block).isSome) (w : Word) {E : FsErr → Server → Prop} :
    wp (fileTruncate f w) s (fun _ s' => s.Becomes (s.view.truncate f w) s') E Panic.Memory := by
  rw [fileTruncate, wp_bind, loadField, wp_loadWord hm, wp_bind]
  refine (h.wp_clearBlocks hf hm _ _).mono ?_ (fun _ _ hf => hf) fun _ hp => hp
  intro _ s₁ hbec₁
  obtain ⟨he₁, hl₁⟩ := h.own.edits_clearBlocks hf (newNblocks w)
    ((s.view.field f F_SIZE).toNat / BY2BLK + 1 - newNblocks w)
  have hm₁ := hbec₁.mapped _ hm
  -- the indirect block goes too, if the file is short
  have hind : wp (if newNblocks w ≤ NDIRECT then clearSlot (f.block, f.word + F_INDIRECT)
      else pure () : FsM Unit) s₁
      (fun _ s₂ => s₁.Becomes
        (if newNblocks w ≤ NDIRECT then s₁.view.clearSlot f .indirect else s₁.view) s₂) E
      Panic.Memory := by
    split_ifs with hnew
    · exact (h.runs (hbec₁.runs he₁)).wp_clearSlot (hbec₁.view ▸ hl₁) Slot.ok_indirect trivial hm₁
    · exact .refl
  rw [wp_bind]
  refine hind.mono ?_ (fun _ _ hf => hf) fun _ hp => hp
  intro _ s₂ hbec₂
  rw [storeField, wp_storeWord (hbec₂.mapped _ hm₁)]
  have hview : s.view.truncate f w = s₂.view.store f.block (f.word + F_SIZE) w := by
    rw [View.truncate, hbec₂.view, hbec₁.view]
    rfl
  rw [hview]
  exact (hbec₁.trans hbec₂).trans (becomes_store _)

/-! ## Flushing -/

lemma wp_writeIfDirty {E : FsErr → Server → Prop} {P : Panic → Prop} :
    wp (writeIfDirty b) s (fun _ s' => s.Becomes s.view s' ∧ s'.cache = s.cache) E P := by
  rw [writeIfDirty, wp_bind, blockIsDirty, wp_blockIsMapped, wp_ite]
  exact ⟨fun hm => wp_writeBlock hm, fun _ => ⟨.refl, rfl⟩⟩

/-- The view is the same, and no page of a free block is touched. -/
structure Server.Same (s s' : Server) : Prop where
  becomes : s.Becomes s.view s'
  keeps : s.Keeps s'

lemma Server.Same.refl : s.Same s := ⟨.refl, .refl⟩

lemma Server.Same.trans (h : s.Same s') (h' : s'.Same s'') : s.Same s'' := by
  have hview := h.becomes.view
  refine ⟨h.becomes.trans ?_, h.keeps.trans h'.keeps (by rw [hview])⟩
  rw [← hview]
  exact h'.becomes

lemma Server.same_of_cache (hview : s.Becomes s.view s') (hcache : s'.cache = s.cache) :
    s.Same s' := by
  refine ⟨hview, fun c _ hfree => ⟨?_, page_congr (by rw [hcache])⟩⟩
  rwa [hview.view] at hfree

lemma Server.Sound.same (h : s.Sound O) (hs : s.Same s') : s'.Sound O := h.runs hs.becomes.runs_same

lemma Server.Sound.wp_fileDirty (h : s.Sound O) (hf : s.view.Live O f)
    (hm : (s.cache f.block).isSome) (offset : ℕ) :
    wp (fileDirty f offset) s (fun _ s' => s.Same s') (fun _ s' => s.Same s') Panic.Memory := by
  rw [fileDirty, wp_bind]
  refine (h.wp_fileMapBlock_lookup hf hm).mono ?_ (fun _ _ he => ⟨he.1, he.2.1⟩) fun _ hp => hp
  rintro b s₁ ⟨-, hbec, hk, -⟩
  rw [dirtyBlock, wp_bind, wp_blockIsMapped, wp_ite]
  exact ⟨fun _ => ⟨hbec, hk⟩, fun _ => ⟨hbec, hk⟩⟩

lemma Server.Sound.wp_fileFlush (h : s.Sound O) (hf : s.view.Live O f)
    (hm : (s.cache f.block).isSome) {E : FsErr → Server → Prop} :
    wp (fileFlush f) s (fun _ s' => s.Same s') E Panic.Memory := by
  rw [fileFlush, wp_bind, loadField, wp_loadWord hm]
  refine wp_forRange (fun _ s' => s.Same s') _ _ .refl ?_
  intro i s₁ _ _ hsame
  have hlive : s₁.view.Live O f := hsame.becomes.view ▸ hf
  rw [flushBlock, wp_bind, wp_attempt]
  refine ((h.same hsame).wp_fileMapBlock_lookup hlive (hsame.becomes.mapped _ hm)).mono ?_ ?_
    fun _ hp => hp
  · rintro c s₂ ⟨-, hbec₂, hk₂, -⟩
    refine wp_writeIfDirty.mono (fun _ s₃ hs₃ => ?_) (fun _ _ hf => hf) fun _ hp => hp
    exact (hsame.trans ⟨hbec₂, hk₂⟩).trans (Server.same_of_cache hs₃.1 hs₃.2)
  · rintro e s₂ ⟨hbec₂, hk₂, -⟩
    exact hsame.trans ⟨hbec₂, hk₂⟩

/-- A pointer to a live file is the address of the file. -/
lemma View.Own.ofAddr_addr (h : v.Own O) (hf : v.Live O f) : FileRef.ofAddr f.addr = f := by
  have hbound : f.block < 0x40000 ∧ f.word < 1024 := by
    have hsmall := h.small
    simp only [MAXBLOCKS] at hsmall
    obtain rfl | ⟨d, sl, j, hd, -, hsl, hb, hj, rfl⟩ := hf.cases_on_place
    · exact ⟨by decide, by decide⟩
    · have := (h.range d sl hd hsl.ok hb).2.1
      simp only [FILE2BLK] at hj
      simp only [FileRef.entry]
      omega
  have hsub : f.addr - DISKMAP = BitVec.ofNat 32 (4096 * f.block + 4 * f.word) := by
    rw [FileRef.addr, BitVec.add_comm, BitVec.add_sub_cancel]
  have hnat : (f.addr - DISKMAP).toNat = 4096 * f.block + 4 * f.word := by
    rw [hsub, BitVec.toNat_ofNat]
    omega
  rw [FileRef.ofAddr, hnat]
  have h₁ : (4096 * f.block + 4 * f.word) / 4096 = f.block := by omega
  have h₂ : (4096 * f.block + 4 * f.word) % 4096 / 4 = f.word := by omega
  rw [h₁, h₂]

lemma Server.Sound.wp_flushDir (h : s.Sound O) (hO : f = .root ∨ f ∈ O) (hf : s.view.Live O f)
    {E : FsErr → Server → Prop} :
    wp (flushDir f) s (fun _ s' => s.Same s') E Panic.Memory := by
  have hmapped : ∀ {g}, g = .root ∨ g ∈ O → (s.cache g.block).isSome := by
    rintro g (rfl | hg)
    · exact h.started.superMapped
    · exact h.opened g hg
  rw [flushDir, wp_bind, loadField, wp_loadWord (hmapped hO), wp_ite]
  refine ⟨fun _ => .refl, fun hne => ?_⟩
  rcases hO with rfl | hO
  · exact absurd h.parents.root hne
  · obtain ⟨d, hd, haddr⟩ := h.parents.open_ f hO hf hne
    change s.view f.block (f.word + F_DIR) = _ at haddr
    rw [haddr, h.own.ofAddr_addr hd.live]
    exact h.wp_fileFlush hd.live (hmapped hd.known)

lemma Server.Sound.mapped (h : s.Sound O) (hO : f = .root ∨ f ∈ O) : (s.cache f.block).isSome := by
  rcases hO with rfl | hO
  · exact h.started.superMapped
  · exact h.opened f hO

/-- A word of a live file is stored; no free block has to do with it. -/
lemma Server.Sound.keeps_field (h : s.Sound O) (hf : s.view.Live O f) (k : ℕ) (w : Word) :
    s.Keeps (s.put f.block (Function.update (s.view f.block) (f.word + k) w)) := by
  intro c hc hfree
  have hview : (s.put f.block (Function.update (s.view f.block) (f.word + k) w)).view =
      s.view.store f.block (f.word + k) w := view_put _
  rw [hview, free_store (h.own.plain_field hf k) hc] at hfree
  refine ⟨hfree, page_congr (Function.update_of_ne ?_ _ _)⟩
  rintro rfl
  have h2 := @two_le_lastReserved s.view
  rcases h.own.meta_used (.type hf) with h1 | ⟨-, -, hused⟩
  · have := h.own.reserved _ hc hfree
    omega
  · exact hused hfree

/-- `file_set_size` to a size that is not smaller stores the size. -/
lemma Server.Sound.wp_fileSetSize_grow (h : s.Sound O) (hO : f = .root ∨ f ∈ O)
    (hf : s.view.Live O f) {w : Word} (hle : (s.view.field f F_SIZE).toNat ≤ w.toNat)
    {E : FsErr → Server → Prop} :
    wp (fileSetSize f w) s (fun _ s' => s.Keeps s' ∧
      s.Becomes (s.view.store f.block (f.word + F_SIZE) w) s') E Panic.Memory := by
  have hm := h.mapped hO
  have hsize : ¬ w.toNat < (s.view f.block (f.word + F_SIZE)).toNat := not_lt.mpr hle
  rw [fileSetSize, wp_bind, loadField, wp_loadWord hm, wp_bind, if_neg hsize, wp_pure, wp_bind,
    storeField, wp_storeWord hm]
  have hbec : s.Becomes (s.view.store f.block (f.word + F_SIZE) w) _ :=
    becomes_store (i := f.word + F_SIZE) w
  have hkeeps := h.keeps_field hf F_SIZE w
  obtain ⟨he, hlive⟩ := h.own.edits_size hf w
  generalize s.put f.block _ = s₁ at hbec hkeeps ⊢
  have h₁ := h.runs (hbec.runs he)
  refine (h₁.wp_flushDir hO (hbec.view ▸ hlive)).mono ?_ (fun _ _ hf => hf) fun _ hp => hp
  intro _ s₂ hs₂
  refine ⟨hkeeps.trans hs₂.keeps ?_, ?_⟩
  · rw [hbec.view, nblocks_store_plain (h.own.plain_field hf F_SIZE)]
  · have hbec₂ := hs₂.becomes
    rw [hbec.view] at hbec₂
    exact hbec.trans hbec₂

/-- **What `file_set_size` does.** -/
lemma Server.Sound.wp_fileSetSize (h : s.Sound O) (hO : f = .root ∨ f ∈ O)
    (hf : s.view.Live O f) (w : Word) {E : FsErr → Server → Prop} :
    wp (fileSetSize f w) s (fun _ s' => s.Becomes (s.view.setSize f w) s') E Panic.Memory := by
  have hm := h.mapped hO
  rw [fileSetSize, wp_bind, loadField, wp_loadWord hm]
  have htrunc : wp (if w.toNat < (s.view.field f F_SIZE).toNat then fileTruncate f w
      else pure () : FsM Unit) s
      (fun _ s₁ => s.Becomes (if w.toNat < (s.view.field f F_SIZE).toNat then s.view.truncate f w
        else s.view) s₁) E Panic.Memory := by
    split_ifs with hlt
    · exact h.wp_fileTruncate hf hm w
    · exact .refl
  rw [wp_bind]
  refine htrunc.mono ?_ (fun _ _ hf => hf) fun _ hp => hp
  intro _ s₁ hbec₁
  rw [wp_bind, storeField, wp_storeWord (hbec₁.mapped _ hm)]
  obtain ⟨hedits, hlive⟩ := h.own.edits_setSize hf w
  have hbec₂ : s.Becomes (s.view.setSize f w)
      (s₁.put f.block (Function.update (s₁.view f.block) (f.word + F_SIZE) w)) := by
    rw [View.setSize, ← hbec₁.view]
    exact hbec₁.trans (becomes_store _)
  have h₂ := h.runs (hbec₂.runs hedits)
  refine (h₂.wp_flushDir hO (hbec₂.view ▸ hlive)).mono ?_ (fun _ _ hf => hf) fun _ hp => hp
  intro _ s₃ hs₃
  have hbec₃ := hs₃.becomes
  rw [hbec₂.view] at hbec₃
  exact hbec₂.trans hbec₃

lemma Server.Sound.wp_fileClose (h : s.Sound O) (hO : f = .root ∨ f ∈ O) (hf : s.view.Live O f)
    {E : FsErr → Server → Prop} :
    wp (fileClose f) s (fun _ s' => s.Same s') E Panic.Memory := by
  rw [fileClose, wp_bind]
  refine (h.wp_fileFlush hf (h.mapped hO)).mono ?_ (fun _ _ hf => hf) fun _ hp => hp
  intro _ s₁ hs₁
  refine ((h.same hs₁).wp_flushDir hO (hs₁.becomes.view ▸ hf)).mono ?_ (fun _ _ hf => hf)
    fun _ hp => hp
  exact fun _ s₂ hs₂ => hs₁.trans hs₂

lemma Server.Sound.wp_fsSync (h : s.Sound O) {E : FsErr → Server → Prop} {P : Panic → Prop} :
    wp fsSync s (fun _ s' => s.Same s') E P := by
  rw [fsSync, wp_bind, wp_nblocks h.started]
  refine wp_forRange (fun _ s' => s.Same s') _ _ .refl ?_
  intro i s₁ _ _ hsame
  refine wp_writeIfDirty.mono (fun _ s₂ hs₂ => ?_) (fun _ _ hf => hf) fun _ hp => hp
  exact hsame.trans (Server.same_of_cache hs₂.1 hs₂.2)

end

end MosRv.Fs
