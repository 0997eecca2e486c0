import MosRv.Fs.Server

/-!
# What the server holds, and its operations on blocks

The *view* of a server is what it holds of every block: the page of the cache, or what is on the
disk where there is none.  Reading and writing back blocks changes the cache and the disk but not
the view; that the view does not change is what makes the cache a cache.

`Becomes v` says that a step turned the view into `v` and did nothing else that matters.  For each
function of the block layer there is one specification in these terms; a started server
(`Started`) has the super block and the bitmap in its cache.
-/

namespace MosRv.Fs

open Prog

/-- The blocks. -/
abbrev View := ℕ → Block

/-- What the server holds of each block. -/
def Server.view (s : Server) : View := fun b => (s.cache b).getD (s.disk b)

namespace View

/-- `s_nblocks`. -/
def nblocks (v : View) : ℕ := (v 1 S_NBLOCKS).toNat

/-- The bit of a block in the bitmap is set. -/
def Free (v : View) (b : ℕ) : Prop := (v (bitmapBlock b) (bitmapWord b)).getLsbD (b % 32) = true

instance (v : View) (b : ℕ) : Decidable (v.Free b) := inferInstanceAs (Decidable (_ = _))

/-- A word is stored. -/
def store (v : View) (b i : ℕ) (w : Word) : View :=
  Function.update v b (Function.update (v b) i w)

/-- The bit of a block is set. -/
def setFree (v : View) (b : ℕ) : View :=
  v.store (bitmapBlock b) (bitmapWord b) (v (bitmapBlock b) (bitmapWord b) ||| 1#32 <<< (b % 32))

/-- The bit of a block is cleared. -/
def setUsed (v : View) (b : ℕ) : View :=
  v.store (bitmapBlock b) (bitmapWord b)
    (v (bitmapBlock b) (bitmapWord b) &&& ~~~(1#32 <<< (b % 32)))

variable (v : View) (b b' i i' : ℕ) (w : Word)

lemma store_apply : v.store b i w b' i' = if b' = b ∧ i' = i then w else v b' i' := by
  by_cases hb : b' = b
  · subst hb
    by_cases hi : i' = i
    · subst hi
      simp [store]
    · simp [store, hi]
  · simp [store, hb]

lemma store_of_ne {b' : ℕ} (h : b' ≠ b) : v.store b i w b' = v b' := Function.update_of_ne h _ _

lemma bit_inj (hb : bitmapBlock b = bitmapBlock b') (hw : bitmapWord b = bitmapWord b')
    (hm : b % 32 = b' % 32) : b = b' := by
  simp only [bitmapBlock, bitmapWord, BIT2BLK] at hb hw
  omega

lemma getLsbD_bit {n k : ℕ} (hk : k < 32) : (1#32 <<< n).getLsbD k = decide (k = n) := by
  rw [BitVec.getLsbD_shiftLeft, BitVec.getLsbD_one, Bool.eq_iff_iff]
  simp only [hk, decide_true, Bool.true_and, Bool.and_eq_true, Bool.not_eq_true', decide_eq_true_eq,
    decide_eq_false_iff_not]
  omega

lemma mod_lt_word : b % 32 < 32 := Nat.mod_lt _ (by decide)

lemma free_setFree : (v.setFree b).Free b' ↔ v.Free b' ∨ b' = b := by
  rw [Free, setFree, store_apply]
  by_cases h : bitmapBlock b' = bitmapBlock b ∧ bitmapWord b' = bitmapWord b
  · rw [if_pos h, ← h.1, ← h.2, BitVec.getLsbD_or, Bool.or_eq_true, getLsbD_bit (mod_lt_word b'),
      decide_eq_true_iff, ← Free]
    exact or_congr Iff.rfl ⟨bit_inj _ _ h.1 h.2, fun hb => by rw [hb]⟩
  · rw [if_neg h, ← Free]
    refine ⟨Or.inl, fun hor => hor.resolve_right ?_⟩
    rintro rfl
    exact h ⟨rfl, rfl⟩

lemma free_setUsed : (v.setUsed b).Free b' ↔ v.Free b' ∧ b' ≠ b := by
  rw [Free, setUsed, store_apply]
  by_cases h : bitmapBlock b' = bitmapBlock b ∧ bitmapWord b' = bitmapWord b
  · rw [if_pos h, ← h.1, ← h.2, BitVec.getLsbD_and, Bool.and_eq_true, BitVec.getLsbD_not,
      getLsbD_bit (mod_lt_word b'), ← Free]
    simp only [mod_lt_word, decide_true, Bool.true_and, Bool.not_eq_true', decide_eq_false_iff_not]
    exact and_congr Iff.rfl (not_congr ⟨bit_inj _ _ h.1 h.2, fun hb => by rw [hb]⟩)
  · rw [if_neg h, ← Free]
    refine ⟨fun hf => ⟨hf, ?_⟩, And.left⟩
    rintro rfl
    exact h ⟨rfl, rfl⟩

/-- A block that is taken and given back. -/
lemma setFree_setUsed (h : v.Free b) : (v.setUsed b).setFree b = v := by
  funext c j
  rw [setFree, store_apply, setUsed, store_apply, store_apply]
  by_cases hc : c = bitmapBlock b ∧ j = bitmapWord b
  · obtain ⟨rfl, rfl⟩ := hc
    simp only [and_self, if_true]
    apply BitVec.eq_of_getLsbD_eq
    intro k hk
    rw [BitVec.getLsbD_or, BitVec.getLsbD_and, BitVec.getLsbD_not, getLsbD_bit hk]
    by_cases hkb : k = b % 32
    · subst hkb
      rw [Free] at h
      simp [h]
    · simp [hkb, hk]
  · rw [if_neg hc, if_neg hc]

end View

/-! ## Pages -/

/-- The page of a block gets new contents. -/
def Server.put (s : Server) (b : ℕ) (blk : Block) : Server :=
  { s with cache := Function.update s.cache b (some blk) }

/-- The view becomes `v`, and nothing else changes but what is on the disk and which pages are
mapped. -/
structure Server.Becomes (s : Server) (v : View) (s' : Server) : Prop where
  view : s'.view = v
  super : s'.super = s.super
  bitmap : s'.bitmap = s.bitmap
  mapped : ∀ b, (s.cache b).isSome → (s'.cache b).isSome

/-- A server that has run `fs_init`: the super block and the bitmap are mapped. -/
structure Server.Started (s : Server) : Prop where
  super : s.super = true
  bitmap : s.bitmap = true
  superMapped : (s.cache 1).isSome
  bitmapMapped : ∀ b, b < s.view.nblocks → (s.cache (bitmapBlock b)).isSome

section

variable {s s' s'' : Server} {v v' : View} {b i : ℕ} {α : Type}
variable {E : FsErr → Server → Prop} {P : Panic → Prop}

lemma view_of_mapped {blk : Block} (h : s.cache b = some blk) : s.view b = blk := by
  rw [Server.view, h, Option.getD_some]

@[simp] lemma view_put (blk : Block) : (s.put b blk).view = Function.update s.view b blk := by
  funext c
  by_cases hc : c = b
  · subst hc
    simp [Server.view, Server.put]
  · simp [Server.view, Server.put, hc]

lemma mapped_put (blk : Block) {c : ℕ} (h : (s.cache c).isSome) :
    ((s.put b blk).cache c).isSome := by
  by_cases hc : c = b
  · subst hc
    simp [Server.put]
  · simpa [Server.put, hc] using h

lemma Server.Becomes.refl : s.Becomes s.view s := ⟨rfl, rfl, rfl, fun _ h => h⟩

lemma Server.Becomes.trans (h : s.Becomes v s') (h' : s'.Becomes v' s'') : s.Becomes v' s'' :=
  ⟨h'.view, h'.super.trans h.super, h'.bitmap.trans h.bitmap, fun b hb =>
    h'.mapped b (h.mapped b hb)⟩

lemma becomes_put (blk : Block) : s.Becomes (Function.update s.view b blk) (s.put b blk) :=
  ⟨view_put blk, rfl, rfl, fun _ hc => mapped_put blk hc⟩

lemma becomes_store (w : Word) :
    s.Becomes (s.view.store b i w) (s.put b (Function.update (s.view b) i w)) :=
  becomes_put _

lemma Server.Started.becomes (h : s.Started) (hb : s.Becomes v s')
    (hn : v.nblocks = s.view.nblocks) : s'.Started where
  super := hb.super.trans h.super
  bitmap := hb.bitmap.trans h.bitmap
  superMapped := hb.mapped 1 h.superMapped
  bitmapMapped c hc := hb.mapped _ (h.bitmapMapped c (by rwa [hb.view, hn] at hc))

lemma wp_touch {Q : Unit → Server → Prop} (h : (s.cache b).isSome) :
    wp (touch b) s Q E P ↔ Q () s := by
  rw [touch, wp_bind, wp_get, if_pos h, wp_pure]

lemma wp_loadBlock {Q : Block → Server → Prop} (h : (s.cache b).isSome) :
    wp (loadBlock b) s Q E P ↔ Q (s.view b) s := by
  obtain ⟨blk, hblk⟩ := Option.isSome_iff_exists.mp h
  rw [loadBlock, wp_bind, wp_touch h, wp_bind, wp_get, wp_pure, view_of_mapped hblk, hblk,
    Option.getD_some]

lemma wp_storeBlock {Q : Unit → Server → Prop} {blk : Block} (h : (s.cache b).isSome) :
    wp (storeBlock b blk) s Q E P ↔ Q () (s.put b blk) := by
  rw [storeBlock, wp_bind, wp_touch h]
  exact Iff.rfl

lemma wp_loadWord {Q : Word → Server → Prop} (h : (s.cache b).isSome) :
    wp (loadWord b i) s Q E P ↔ Q (s.view b i) s := by
  rw [loadWord, wp_bind, wp_loadBlock h, wp_pure]

lemma wp_storeWord {Q : Unit → Server → Prop} {w : Word} (h : (s.cache b).isSome) :
    wp (storeWord b i w) s Q E P ↔ Q () (s.put b (Function.update (s.view b) i w)) := by
  rw [storeWord, wp_bind, wp_loadBlock h, wp_storeBlock h]

lemma wp_blockIsMapped {Q : Bool → Server → Prop} :
    wp (blockIsMapped b) s Q E P ↔ Q (s.cache b).isSome s := Iff.rfl

lemma wp_nextMem {Q : Bool → Server → Prop} :
    wp nextMem s Q E P ↔ Q (s.mem 0) { s with mem := fun i => s.mem (i + 1) } := Iff.rfl

/-! ## Blocks -/

/-- Writing a block back does not change the view. -/
lemma wp_writeBlock (h : (s.cache b).isSome) :
    wp (writeBlock b) s (fun _ s' => s.Becomes s.view s' ∧ s'.cache = s.cache) E P := by
  obtain ⟨blk, hblk⟩ := Option.isSome_iff_exists.mp h
  rw [writeBlock, wp_bind, wp_blockIsMapped, if_pos h, wp_bind, wp_loadBlock h, wp_modify]
  refine ⟨⟨?_, rfl, rfl, fun _ hc => hc⟩, rfl⟩
  funext c
  by_cases hc : c = b
  · subst hc
    simp [Server.view, hblk]
  · simp [Server.view, hc]

lemma wp_nblocks {Q : ℕ → Server → Prop} (h : s.Started) :
    wp nblocks s Q E P ↔ Q s.view.nblocks s := by
  rw [nblocks, wp_bind, wp_loadWord h.superMapped, wp_pure, View.nblocks]

lemma wp_blockIsFree {Q : Bool → Server → Prop} (h : s.Started) :
    wp (blockIsFree b) s Q E P ↔ Q (decide (b < s.view.nblocks ∧ s.view.Free b)) s := by
  rw [blockIsFree, wp_bind, wp_get, if_pos h.super, wp_bind, wp_nblocks h]
  by_cases hb : s.view.nblocks ≤ b
  · rw [if_pos hb, wp_pure, decide_eq_false (fun hc => absurd hc.1 (not_lt.mpr hb))]
  · rw [if_neg hb, wp_bind, wp_loadWord (h.bitmapMapped b (not_le.mp hb)), wp_pure]
    have hiff : (decide (b < s.view.nblocks ∧ s.view.Free b)) =
        (s.view (bitmapBlock b) (bitmapWord b)).getLsbD (b % 32) := by
      rw [Bool.eq_iff_iff, decide_eq_true_iff, View.Free]
      exact ⟨And.right, fun hf => ⟨not_le.mp hb, hf⟩⟩
    rw [hiff]

end

/-! ## Reading, taking and freeing blocks -/

/-- The blocks up to this one are the boot block, the super block and the bitmap. -/
def View.lastReserved (v : View) : ℕ := bitmapBlock v.nblocks

/-- A block is taken, and its page has the contents `z`. -/
def View.take (v : View) (b : ℕ) (z : Block) : View := Function.update (v.setUsed b) b z

/-- The contents of the page once the block is mapped by `map_block`. -/
def Server.page (s : Server) (b : ℕ) : Block := (s.cache b).getD Block.zero

/-- The first block that `alloc_block_num` finds. -/
structure View.FirstFree (v : View) (b : ℕ) : Prop where
  ge : 3 ≤ b
  lt : b < v.nblocks
  free : v.Free b
  first : ∀ c, 3 ≤ c → c < b → ¬ v.Free c

section

variable {s s' : Server} {v : View} {b c : ℕ}
variable {E : FsErr → Server → Prop} {P : Panic → Prop}

lemma bitmapBlock_le (h : b < v.nblocks) : bitmapBlock b ≤ v.lastReserved := by
  simp only [View.lastReserved, bitmapBlock, BIT2BLK]
  omega

lemma two_le_bitmapBlock : 2 ≤ bitmapBlock b := Nat.le_add_right _ _

lemma nblocks_store {i : ℕ} {w : Word} (h : c ≠ 1) : (v.store c i w).nblocks = v.nblocks := by
  rw [View.nblocks, View.nblocks, View.store_of_ne v c i w (Ne.symm h)]

lemma nblocks_setFree : (v.setFree b).nblocks = v.nblocks :=
  nblocks_store (by have := two_le_bitmapBlock (b := b); omega)

lemma nblocks_setUsed : (v.setUsed b).nblocks = v.nblocks :=
  nblocks_store (by have := two_le_bitmapBlock (b := b); omega)

lemma wp_checkExists {Q : Unit → Server → Prop} (h : s.Started) (hb : b < s.view.nblocks) :
    wp (checkExists b) s Q E P ↔ Q () s := by
  rw [checkExists, wp_bind, wp_get, if_pos h.super, wp_bind, wp_nblocks h, require,
    if_pos (decide_eq_true hb), wp_pure]

lemma wp_checkUsed {Q : Unit → Server → Prop} (h : s.Started) (hused : ¬ s.view.Free b) :
    wp (checkUsed b) s Q E P ↔ Q () s := by
  rw [checkUsed, wp_bind, wp_get, if_pos h.bitmap, wp_bind, wp_blockIsFree h, require,
    if_pos (by simp [hused]), wp_pure]

/-- A block in use is loaded, and that does not change the view. -/
lemma wp_readBlock (h : s.Started) (hb : b < s.view.nblocks) (hused : ¬ s.view.Free b)
    (hP : P .outOfMemory) :
    wp (readBlock b) s (fun _ s' => s.Becomes s.view s' ∧ (s'.cache b).isSome ∧
      ∀ c, c ≠ b → s'.cache c = s.cache c) E P := by
  rw [readBlock, wp_bind, wp_checkExists h hb, wp_bind, wp_checkUsed h hused, wp_bind,
    wp_blockIsMapped]
  by_cases hm : (s.cache b).isSome
  · rw [if_pos hm, wp_pure]
    exact ⟨.refl, hm, fun _ _ => rfl⟩
  · rw [if_neg hm, wp_bind, wp_attempt, memAlloc, wp_bind, wp_nextMem]
    have hnone : s.cache b = none := Option.not_isSome_iff_eq_none.mp hm
    -- both ways the page ends up with what is on the disk
    have hload : ∀ (m : ℕ → Bool) (blk : Option Block) (s' : Server),
        s' = { s with mem := m, cache := Function.update s.cache b blk }.put b (s.disk b) →
        s.Becomes s.view s' ∧ (s'.cache b).isSome ∧ ∀ c, c ≠ b → s'.cache c = s.cache c := by
      rintro m blk - rfl
      refine ⟨⟨?_, rfl, rfl, fun c hc => ?_⟩, by simp [Server.put], fun c hc => ?_⟩
      · funext c
        by_cases hc : c = b
        · subst hc
          simp [Server.view, Server.put, hnone]
        · simp [Server.view, Server.put, hc]
      · by_cases hcb : c = b
        · subst hcb
          simp [Server.put]
        · simpa [Server.put, hcb] using hc
      · simp [Server.put, hc]
    cases hmem : s.mem 0 with
    | true =>
        rw [if_pos rfl, setCache, wp_modify, wp_bind, wp_get, wp_bind, wp_storeBlock (by simp),
          wp_pure]
        exact hload _ _ _ rfl
    | false =>
        rw [if_neg Bool.false_ne_true, wp_exit, wp_bind, wp_get, wp_bind,
          storeBlock, wp_bind, touch,
          wp_bind, wp_get, if_neg hm, wp_bind, wp_nextMem, wp_ite]
        refine ⟨fun _ => ?_, fun _ => hP⟩
        rw [setCache, wp_modify, setCache, wp_modify, wp_pure]
        exact hload _ _ _ rfl

/-- Freeing a block sets its bit. -/
lemma wp_freeBlock (h : s.Started) (h0 : b ≠ 0) (hb : b < s.view.nblocks) :
    wp (freeBlock b) s (fun _ s' => s.Becomes (s.view.setFree b) s' ∧
      ∀ c, c ≠ bitmapBlock b → s'.cache c = s.cache c) E P := by
  rw [freeBlock, if_neg h0, wp_bind, wp_nblocks h, if_neg (not_le.mpr hb), wp_bind,
    wp_loadWord (h.bitmapMapped b hb), wp_storeWord (h.bitmapMapped b hb)]
  exact ⟨becomes_store _, fun c hc => Function.update_of_ne hc _ _⟩

/-- The loop of `alloc_block_num` takes the first free block. -/
lemma wp_allocFrom {n : ℕ} (h : s.Started) (hn : b + n ≤ s.view.nblocks) :
    wp (allocFrom b n) s
      (fun r s' => b ≤ r ∧ r < b + n ∧ s.view.Free r ∧ (∀ c, b ≤ c → c < r → ¬ s.view.Free c) ∧
        s.Becomes (s.view.setUsed r) s' ∧ ∀ c, c ≠ bitmapBlock r → s'.cache c = s.cache c)
      (fun e s' => e = .noDisk ∧ s' = s ∧ ∀ c, b ≤ c → c < b + n → ¬ s.view.Free c) P := by
  induction n generalizing b with
  | zero =>
      rw [allocFrom, wp_exit]
      exact ⟨rfl, rfl, fun c hc hlt => absurd hlt (by omega)⟩
  | succ n ih =>
      have hb : b < s.view.nblocks := by omega
      have hm := h.bitmapMapped b hb
      rw [allocFrom, wp_bind, wp_loadWord hm, wp_ite]
      refine ⟨fun hfree => ?_, fun hused => ?_⟩
      · rw [wp_bind, wp_storeWord hm, wp_bind]
        have hblk : b / BIT2BLK + 2 = bitmapBlock b := Nat.add_comm _ _
        rw [hblk]
        refine (wp_writeBlock (mapped_put _ hm)).mono ?_ (fun _ _ hf => hf) fun _ hp => hp
        rintro - s' ⟨hbec, hcache⟩
        rw [wp_pure]
        refine ⟨le_rfl, by omega, hfree, fun c hc hlt => absurd hlt (by omega), ?_, fun c hc => ?_⟩
        · exact (becomes_store _).trans (view_put _ ▸ hbec)
        · rw [hcache]
          exact Function.update_of_ne hc _ _
      · refine (ih (b := b + 1) (by omega)).mono ?_ ?_ fun _ hp => hp
        · rintro r s' ⟨hr, hlt, hfree, hfirst, hbec⟩
          refine ⟨by omega, by omega, hfree, fun c hc hcr => ?_, hbec⟩
          rcases Nat.eq_or_lt_of_le hc with rfl | hc
          · exact hused
          · exact hfirst c hc hcr
        · rintro e s' ⟨he, hs, hall⟩
          refine ⟨he, hs, fun c hc hlt => ?_⟩
          rcases Nat.eq_or_lt_of_le hc with rfl | hc
          · exact hused
          · exact hall c hc (by omega)

lemma wp_mapBlock (hP : ∀ e s', e = .noMem → s.Becomes s.view s' → s'.cache = s.cache → E e s') :
    wp (mapBlock b) s (fun _ s' => s.Becomes (Function.update s.view b (s.page b)) s' ∧
      (s'.cache b).isSome ∧ ∀ c, c ≠ b → s'.cache c = s.cache c) E P := by
  rw [mapBlock, wp_bind, wp_blockIsMapped]
  by_cases hm : (s.cache b).isSome
  · obtain ⟨blk, hblk⟩ := Option.isSome_iff_exists.mp hm
    have hsame : Function.update s.view b (s.page b) = s.view := by
      rw [Server.page, hblk, Option.getD_some, ← view_of_mapped hblk, Function.update_eq_self]
    rw [if_pos hm, wp_pure, hsame]
    exact ⟨.refl, hm, fun _ _ => rfl⟩
  · have hpage : s.page b = Block.zero := by
      rw [Server.page, Option.not_isSome_iff_eq_none.mp hm, Option.getD_none]
    rw [if_neg hm, memAlloc, wp_bind, wp_nextMem, wp_ite, wp_exit, hpage]
    refine ⟨fun _ => ⟨⟨view_put _, rfl, rfl, fun _ hc => mapped_put _ hc⟩, ?_, fun c hc => ?_⟩,
      fun _ => ?_⟩
    · simp
    · exact Function.update_of_ne hc _ _
    · exact hP _ _ rfl ⟨rfl, rfl, rfl, fun _ hc => hc⟩ rfl

/-- **Allocation** takes the first free block and maps it: with what its page holds, if it is still
in the cache, or with zeros.  A failed allocation changes nothing. -/
lemma wp_allocBlock (h : s.Started)
    (hres : ∀ b, b < s.view.nblocks → s.view.Free b → s.view.lastReserved < b) :
    wp allocBlock s
      (fun b s' => s.view.FirstFree b ∧ s.Becomes (s.view.take b (s.page b)) s' ∧
        (s'.cache b).isSome ∧ ∀ c, s.view.lastReserved < c → c ≠ b → s'.cache c = s.cache c)
      (fun e s' => (e = .noDisk ∧ (∀ c, 3 ≤ c → c < s.view.nblocks → ¬ s.view.Free c) ∨
        e = .noMem) ∧ s.Becomes s.view s' ∧
        ∀ c, s.view.lastReserved < c → s'.cache c = s.cache c) P := by
  rw [allocBlock, wp_bind, allocBlockNum, wp_bind, wp_nblocks h]
  by_cases h3 : s.view.nblocks ≤ 3
  · rw [Nat.sub_eq_zero_of_le h3, allocFrom, wp_exit]
    exact ⟨.inl ⟨rfl, fun c hc hlt => absurd hlt (by omega)⟩, .refl, fun _ _ => rfl⟩
  refine (wp_allocFrom (b := 3) (n := s.view.nblocks - 3) h (by omega)).mono ?_ ?_ fun _ hp => hp
  · rintro b s₁ ⟨hge, hlt, hfree, hfirst, hbec, hcache⟩
    have hb : b < s.view.nblocks := by omega
    -- a free block is not in the bitmap, so its own page is as it was
    have hbit : bitmapBlock b ≤ s.view.lastReserved := bitmapBlock_le hb
    have hne : b ≠ bitmapBlock b := by
      have := hres b hb hfree
      omega
    have hpage : s₁.page b = s.page b := by
      rw [Server.page, Server.page, hcache b hne]
    rw [wp_bind, wp_attempt]
    refine (wp_mapBlock ?_).mono ?_ (fun _ _ hf => hf) fun _ hp => hp
    · rintro e s₂ rfl hbec₂ hcache₂
      have hn : s₂.view.nblocks = s.view.nblocks := by
        rw [hbec₂.view, hbec.view, nblocks_setUsed]
      have hstart : s₂.Started :=
        (h.becomes hbec nblocks_setUsed).becomes hbec₂ rfl
      rw [wp_bind]
      refine (wp_freeBlock hstart (by omega) (by omega)).mono ?_ (fun _ _ hf => hf) fun _ hp => hp
      rintro - s₃ ⟨hbec₃, hcache₃⟩
      rw [wp_exit]
      refine ⟨.inr rfl, (hbec.trans hbec₂).trans ?_, fun c hc => ?_⟩
      · rwa [hbec₂.view, hbec.view, View.setFree_setUsed _ _ hfree] at hbec₃
      · rw [hcache₃ c (by omega), hcache₂, hcache c (by omega)]
    · rintro - s₂ ⟨hbec₂, hm, hcache₂⟩
      rw [wp_pure]
      refine ⟨⟨hge, hb, hfree, fun c hc hcb => hfirst c hc hcb⟩, ?_, hm, fun c hc hcb => ?_⟩
      · rw [hbec.view, hpage] at hbec₂
        exact hbec.trans hbec₂
      · rw [hcache₂ c hcb, hcache c (by omega)]
  · rintro e s' ⟨rfl, rfl, hall⟩
    exact ⟨.inl ⟨rfl, fun c hc hlt => hall c hc (by omega)⟩, .refl, fun _ _ => rfl⟩

end

end MosRv.Fs
