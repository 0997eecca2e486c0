import MosRv.Fs.Paths

/-!
# Starting a server on a disk

`fs_init` reads the super block, smashes it on the disk and restores it to see that blocks can be
written, and reads the bitmap.  On a well formed disk it ends with a sound server, whose view is the
disk, except for block 0: `check_write_block` backs the super block up there, and leaves it in the
cache.

The memory that `fs_init` asks for may not be there; with all the memory it asks for, `fs_init`
returns.
-/

namespace MosRv.Fs

open Prog View

/-! ## Strings in blocks -/

section

variable {blk : Block} {str : List Byte} {i j : ℕ} {c : Byte}

lemma byte_setByte : (blk.setByte i c).byte j = if j = i then c else blk.byte j := by
  have hi : i % 4 < 4 := Nat.mod_lt _ (by decide)
  have hj : j % 4 < 4 := Nat.mod_lt _ (by decide)
  rw [Block.byte, Block.setByte]
  by_cases hd : j / 4 = i / 4
  · rw [hd, Function.update_self, Bits.byte_setByte _ _ hi hj]
    by_cases hm : j % 4 = i % 4
    · rw [if_pos hm, if_pos (by omega)]
    · rw [if_neg hm, if_neg (by omega), Block.byte, hd]
  · rw [Function.update_of_ne hd, if_neg (by rintro rfl; exact hd rfl), Block.byte]

/-- `strcpy` leaves alone what is before the string. -/
lemma byte_strcpy_of_lt (h : j < i) : (blk.strcpy i str).byte j = blk.byte j := by
  induction str generalizing blk i with
  | nil => rw [Block.strcpy, byte_setByte, if_neg (by omega)]
  | cons c str ih => rw [Block.strcpy, ih (by omega), byte_setByte, if_neg (by omega)]

/-- What was copied is read back. -/
lemma strEq_strcpy : (blk.strcpy i str).strEq i str = true := by
  induction str generalizing blk i with
  | nil => rw [Block.strcpy, Block.strEq, byte_setByte, if_pos rfl, decide_eq_true rfl]
  | cons c str ih =>
      rw [Block.strcpy, Block.strEq, decide_eq_true_iff, byte_strcpy_of_lt (by omega), byte_setByte,
        if_pos rfl]
      exact ⟨rfl, ih⟩

end

/-! ## Loading blocks before the server is started -/

/-- A server that has not started. -/
def Server.fresh (disk : ℕ → Block) (mem : ℕ → Bool) : Server where
  disk := disk
  cache := fun _ => none
  super := false
  bitmap := false
  mem := mem

/-- The page of a block is loaded. -/
structure Server.Loads (s : Server) (b : ℕ) (s' : Server) : Prop where
  cache : s'.cache = Function.update s.cache b (some (s.disk b))
  disk : s'.disk = s.disk
  super : s'.super = s.super
  bitmap : s'.bitmap = s.bitmap
  plenty : s.Plenty → s'.Plenty

section

variable {s s' : Server} {b : ℕ} {E : FsErr → Server → Prop}

lemma Server.Loads.view (h : s.Loads b s') (hb : s.cache b = none) : s'.view = s.view := by
  funext c
  rw [Server.view, Server.view, h.cache, h.disk]
  by_cases hc : c = b
  · subst hc
    rw [Function.update_self, hb]
    rfl
  · rw [Function.update_of_ne hc]

/-- A block is loaded whose number is not checked, or is found to be in range. -/
lemma wp_readBlock_load (hex : s.super = true → (s.cache 1).isSome ∧ b < s.view.nblocks)
    (hbit : s.bitmap = false) (hb : s.cache b = none) :
    wp (readBlock b) s (fun _ s' => s.Loads b s') E s.OutOfMemory := by
  have hcheck : wp (checkExists b) s (fun _ s' => s' = s) E s.OutOfMemory := by
    rw [checkExists, wp_bind, wp_get, wp_ite]
    refine ⟨fun hs => ?_, fun _ => rfl⟩
    rw [wp_bind, nblocks, wp_bind, wp_loadWord (hex hs).1, wp_pure, require]
    have hlt := (hex hs).2
    rw [View.nblocks] at hlt
    rw [if_pos (decide_eq_true hlt)]
    rfl
  have hnone : ¬ (s.cache b).isSome := by
    rw [hb]
    exact Bool.false_ne_true
  rw [readBlock, wp_bind]
  refine hcheck.mono ?_ (fun _ _ he => he) fun _ hp => hp
  rintro - s' rfl
  rw [wp_bind, checkUsed, wp_bind, wp_get, if_neg (by rw [hbit]; exact Bool.false_ne_true), wp_pure,
    wp_bind, wp_blockIsMapped, if_neg hnone, wp_bind, wp_attempt, memAlloc, wp_bind, wp_nextMem]
  cases hmem : s'.mem 0 with
  | true =>
      rw [if_pos rfl, setCache, wp_modify, wp_bind, wp_get, wp_bind,
        wp_storeBlock (by simp), wp_pure]
      exact ⟨by simp [Server.put], rfl, rfl, rfl, fun h i => h (i + 1)⟩
  | false =>
      rw [if_neg Bool.false_ne_true, wp_exit, wp_bind, wp_get, wp_bind, storeBlock, wp_bind, touch,
        wp_bind, wp_get, if_neg hnone, wp_bind, wp_nextMem, wp_ite]
      have hno : ¬ s'.Plenty := fun h => Bool.false_ne_true (hmem ▸ h 0)
      refine ⟨fun _ => ?_, fun _ => ⟨rfl, hno⟩⟩
      rw [setCache, wp_modify, setCache, wp_modify, wp_pure]
      exact ⟨by simp, rfl, rfl, rfl, fun h => absurd h hno⟩

lemma wp_writeBlock_eq {P : Panic → Prop} {Q : Unit → Server → Prop} {blk : Block}
    (h : s.cache b = some blk) :
    wp (writeBlock b) s Q E P ↔ Q () { s with disk := Function.update s.disk b blk } := by
  have hm : (s.cache b).isSome := by
    rw [h]
    rfl
  rw [writeBlock, wp_bind, wp_blockIsMapped, if_pos hm, wp_bind, wp_loadBlock hm, wp_modify,
    view_of_mapped h]

/-! ## The three steps of `fs_init` -/

/-- The disk is one that a server can be started on. -/
structure WellFormed (disk : View) : Prop where
  own : disk.Own ∅
  fits : disk.lastReserved < disk.nblocks
  root : disk.field .root F_DIR = 0#32

/-- The server has the pages up to `n` of the disk in its cache, except that page 0 is a copy of the
super block. -/
structure Server.Loaded (d : View) (n : ℕ) (s : Server) : Prop where
  disk : s.disk = d
  super : s.super = true
  zero : s.cache 0 = some (d 1)
  cache : ∀ c, c ≠ 0 → s.cache c = if c < n then some (d c) else none

/-- Block 0 holds a copy of the super block. -/
def View.backup (d : View) : View := Function.update d 0 (d 1)

variable {disk : View} {n : ℕ} {P : Panic → Prop}

lemma Server.Loaded.view (h : s.Loaded disk n) : s.view = disk.backup := by
  funext c
  rw [Server.view, h.disk]
  by_cases hc : c = 0
  · subst hc
    rw [h.zero, View.backup, Function.update_self]
    rfl
  · rw [h.cache c hc, View.backup, Function.update_of_ne hc]
    split_ifs <;> rfl

lemma nblocks_backup : disk.backup.nblocks = disk.nblocks := by
  rw [View.nblocks, View.backup, Function.update_of_ne (by decide), View.nblocks]

lemma free_backup {c : ℕ} : disk.backup.Free c ↔ disk.Free c := by
  have := @two_le_bitmapBlock c
  rw [Free, View.backup, Function.update_of_ne (by omega), Free]

lemma wp_readSuper (hmagic : disk 1 S_MAGIC = FS_MAGIC) (hsmall : disk.nblocks ≤ MAXBLOCKS)
    (hc : s.cache = fun _ => none) (hd : s.disk = disk) (hsup : s.super = false)
    (hbit : s.bitmap = false) :
    wp readSuper s (fun _ s' => s'.cache = Function.update (fun _ => none) 1 (some (disk 1)) ∧
      s'.disk = disk ∧ s'.bitmap = false ∧ (s.Plenty → s'.Plenty)) E s.OutOfMemory := by
  rw [readSuper, wp_bind]
  refine (wp_readBlock_load (fun hs => absurd (hsup.symm.trans hs) Bool.false_ne_true) hbit
    (by rw [hc])).mono ?_ (fun _ _ he => he) fun _ hp => hp
  intro _ s₁ h₁
  have hcache : s₁.cache = Function.update (fun _ => none) 1 (some (disk 1)) := by
    rw [h₁.cache, hc, hd]
  rw [wp_bind, wp_modify]
  generalize hs₂ : ({ s₁ with super := true } : Server) = s₂
  have hcache₂ : s₂.cache = Function.update (fun _ => none) 1 (some (disk 1)) := by
    rw [← hs₂, ← hcache]
  have hm : (s₂.cache 1).isSome := by
    rw [hcache₂, Function.update_self]
    rfl
  have hview : s₂.view 1 = disk 1 := view_of_mapped (by rw [hcache₂, Function.update_self])
  rw [wp_bind, wp_loadWord hm, hview, wp_bind, require, if_pos (decide_eq_true hmagic), wp_pure,
    wp_bind, nblocks, wp_bind, wp_loadWord hm, hview, wp_pure, ← View.nblocks, require,
    if_pos (decide_eq_true hsmall), wp_pure]
  refine ⟨hcache₂, ?_, ?_, fun hp => ?_⟩
  · rw [← hs₂]
    exact h₁.disk.trans hd
  · rw [← hs₂]
    exact h₁.bitmap.trans hbit
  · rw [← hs₂]
    exact h₁.plenty hp

lemma wp_assert_pos {Q : Unit → Server → Prop} {c : Bool} (h : c = true) :
    wp (assert c) s Q E P ↔ Q () s := by
  rw [assert, require, if_pos h, wp_pure]

/-- The state of the self test: the copy of the super block is in page 0, and `c` and `blk` are in
page 1 and on the disk. -/
structure Server.Tests (s₀ : Server) (d : View) (c : Option Block) (blk : Block) (s : Server) :
    Prop where
  cache : s.cache = Function.update (Function.update (fun _ => none) 1 c) 0 (some (d 1))
  disk : s.disk = Function.update d 1 blk
  super : s.super = false
  bitmap : s.bitmap = false
  plenty : s₀.Plenty → s.Plenty

section Test

variable {s₀ : Server} {c : Option Block} {blk z : Block}

lemma Server.Tests.page (h : s₀.Tests disk (some z) blk s) : s.cache 1 = some z := by
  simp [h.cache]

lemma Server.Tests.copy (h : s₀.Tests disk c blk s) : s.cache 0 = some (disk 1) := by
  simp [h.cache]

lemma Server.Tests.set (h : s₀.Tests disk c blk s) (c' : Option Block) :
    Server.Tests s₀ disk c' blk { s with cache := Function.update s.cache 1 c' } := by
  refine ⟨?_, h.disk, h.super, h.bitmap, h.plenty⟩
  change Function.update s.cache 1 c' = _
  rw [h.cache, Function.update_comm (by decide), Function.update_idem]

lemma Server.Tests.write (h : s₀.Tests disk (some z) blk s) :
    Server.Tests s₀ disk (some z) z { s with disk := Function.update s.disk 1 z } := by
  refine ⟨h.cache, ?_, h.super, h.bitmap, h.plenty⟩
  change Function.update s.disk 1 z = _
  rw [h.disk, Function.update_idem]

lemma Server.Tests.load (h : s₀.Tests disk none blk s) (hl : s.Loads 1 s') :
    s₀.Tests disk (some blk) blk s' := by
  refine ⟨?_, hl.disk.trans h.disk, hl.super.trans h.super, hl.bitmap.trans h.bitmap,
    fun hp => hl.plenty (h.plenty hp)⟩
  rw [hl.cache, h.disk, Function.update_self, h.cache, Function.update_comm (by decide),
    Function.update_idem]

lemma mapped_of_eq (h : s.cache b = some blk) : (s.cache b).isSome := by
  rw [h]
  rfl

/-- The super block is smashed, read back and restored. -/
lemma wp_checkWriteBlock_test (h : s₀.Tests disk (some (disk 1)) (disk 1) s) :
    wp (do
      storeBlock 1 ((← loadBlock 1).strcpy 0 oops)
      writeBlock 1
      assert (← blockIsMapped 1)
      setCache 1 none
      assert !(← blockIsMapped 1)
      let _ ← readBlock 1
      assert ((← loadBlock 1).strEq 0 oops)
      storeBlock 1 (← loadBlock 0)
      writeBlock 1
      modify fun s => { s with super := true }) s
      (fun _ s' => s'.Loaded disk 2 ∧ s'.bitmap = false ∧ (s₀.Plenty → s'.Plenty)) E
      s₀.OutOfMemory := by
  rw [wp_bind, wp_loadBlock (mapped_of_eq h.page), wp_bind, wp_storeBlock (mapped_of_eq h.page)]
  have h₁ := h.set (some ((s.view 1).strcpy 0 oops))
  rw [Server.put]
  generalize Server.mk s.disk _ s.super s.bitmap s.mem = s₁ at h₁ ⊢
  rw [wp_bind, wp_writeBlock_eq h₁.page]
  have h₂ := h₁.write
  generalize Server.mk _ s₁.cache s₁.super s₁.bitmap s₁.mem = s₂ at h₂ ⊢
  rw [wp_bind, wp_blockIsMapped, wp_bind, wp_assert_pos (mapped_of_eq h₂.page), wp_bind, setCache,
    wp_modify]
  have h₃ := h₂.set none
  generalize Server.mk s₂.disk _ s₂.super s₂.bitmap s₂.mem = s₃ at h₃ ⊢
  have hnone : s₃.cache 1 = none := by
    simp [h₃.cache]
  rw [wp_bind, wp_blockIsMapped, wp_bind, wp_assert_pos (by rw [hnone]; rfl), wp_bind]
  refine (wp_readBlock_load (fun hs => absurd (h₃.super.symm.trans hs) Bool.false_ne_true) h₃.bitmap
    hnone).mono ?_ (fun _ _ he => he) fun _ hp => ⟨hp.1, fun hpl => hp.2 (h₃.plenty hpl)⟩
  intro _ s₄ hl
  have h₄ := h₃.load hl
  rw [wp_bind, wp_loadBlock (mapped_of_eq h₄.page), view_of_mapped h₄.page, wp_bind,
    wp_assert_pos strEq_strcpy, wp_bind, wp_loadBlock (mapped_of_eq h₄.copy),
    view_of_mapped h₄.copy, wp_bind, wp_storeBlock (mapped_of_eq h₄.page)]
  have h₅ := h₄.set (some (disk 1))
  rw [Server.put]
  generalize Server.mk s₄.disk _ s₄.super s₄.bitmap s₄.mem = s₅ at h₅ ⊢
  rw [wp_bind, wp_writeBlock_eq h₅.page, wp_modify]
  have h₆ := h₅.write
  generalize Server.mk _ s₅.cache s₅.super s₅.bitmap s₅.mem = s₆ at h₆ ⊢
  refine ⟨⟨?_, rfl, h₆.copy, fun c hc => ?_⟩, h₆.bitmap, h₆.plenty⟩
  · change s₆.disk = disk
    rw [h₆.disk, Function.update_eq_self]
  · change s₆.cache c = _
    rw [h₆.cache, Function.update_of_ne hc]
    by_cases h1 : c = 1
    · subst h1
      simp
    · rw [Function.update_of_ne h1, if_neg (by omega)]

end Test

/-- The self test of the super block leaves the disk as it was. -/
lemma wp_checkWriteBlock
    (hc : s.cache = Function.update (fun _ => none) 1 (some (disk 1))) (hd : s.disk = disk)
    (hbit : s.bitmap = false) :
    wp checkWriteBlock s
      (fun _ s' => s'.Loaded disk 2 ∧ s'.bitmap = false ∧ (s.Plenty → s'.Plenty)) E
      s.OutOfMemory := by
  rw [checkWriteBlock, wp_bind, wp_modify, wp_bind]
  have hread : wp (readBlock 0) ({ s with super := false } : Server)
      (fun _ s' => Server.Loads { s with super := false } 0 s') E s.OutOfMemory :=
    wp_readBlock_load (fun hs => absurd hs Bool.false_ne_true) hbit (by simp [hc])
  refine hread.mono ?_ (fun _ _ he => he) fun _ hp => hp
  intro _ s₁ h₁
  have hc₁ : s₁.cache = Function.update (Function.update (fun _ => none) 1 (some (disk 1))) 0
      (some (disk 0)) := by
    rw [h₁.cache]
    simp [hc, hd]
  have hview : s₁.view 1 = disk 1 := view_of_mapped (by simp [hc₁])
  rw [wp_bind, wp_loadBlock (by simp [hc₁]), wp_bind, wp_storeBlock (by simp [hc₁]), hview]
  refine wp_checkWriteBlock_test ⟨?_, ?_, h₁.super, h₁.bitmap.trans hbit, h₁.plenty⟩
  · rw [Server.put, hc₁, Function.update_idem]
  · rw [Function.update_eq_self]
    exact h₁.disk.trans hd

lemma Server.Loaded.load (h : s.Loaded disk n) (hn : n ≠ 0) (hl : s.Loads n s') :
    s'.Loaded disk (n + 1) where
  disk := hl.disk.trans h.disk
  super := hl.super.trans h.super
  zero := by rw [hl.cache, Function.update_of_ne (Ne.symm hn), h.zero]
  cache c hc := by
    rw [hl.cache, h.disk]
    by_cases hcn : c = n
    · subst hcn
      rw [Function.update_self, if_pos (Nat.lt_succ_self c)]
    · rw [Function.update_of_ne hcn, h.cache c hc]
      exact if_congr (by omega) rfl rfl

/-- A server that has loaded the bitmap is started. -/
lemma Server.Loaded.started (h : s.Loaded disk (disk.lastReserved + 1)) :
    Server.Started { s with bitmap := true } where
  super := h.super
  bitmap := rfl
  superMapped := by
    have h2 := @two_le_lastReserved disk
    change (s.cache 1).isSome
    rw [h.cache 1 (by decide), if_pos (by omega)]
    rfl
  bitmapMapped c hc := by
    have hview : Server.view { s with bitmap := true } = disk.backup := h.view
    rw [hview, nblocks_backup] at hc
    have hle := bitmapBlock_le hc
    have h2 := @two_le_bitmapBlock c
    change (s.cache (bitmapBlock c)).isSome
    rw [h.cache _ (by omega), if_pos (by omega)]
    rfl

lemma wp_readBitmap (hwf : WellFormed disk) (h : s.Loaded disk 2) (hbit : s.bitmap = false) :
    wp readBitmap s (fun _ s' => s'.Started ∧ s'.view = disk.backup ∧
      ∀ c, disk.lastReserved < c → s'.cache c = none) E s.OutOfMemory := by
  have hm : (s.cache 1).isSome := by
    rw [h.cache 1 (by decide)]
    rfl
  have hlast : disk.nblocks / BIT2BLK + 1 + 2 = disk.lastReserved + 1 := by
    rw [lastReserved, bitmapBlock]
    omega
  rw [readBitmap, wp_bind, nblocks, wp_bind, wp_loadWord hm, wp_pure, ← View.nblocks, h.view,
    nblocks_backup, wp_bind]
  -- the blocks of the bitmap are loaded one by one
  have hloop := @wp_forRange _ _ _ E s.OutOfMemory (fun i => do let _ ← readBlock (i + 2))
    (fun i s' => s'.Loaded disk (i + 2) ∧ s'.bitmap = false ∧ (s.Plenty → s'.Plenty))
    (disk.nblocks / BIT2BLK + 1) 0 (s := s) ⟨h, hbit, id⟩ ?_
  · rw [Nat.zero_add, hlast] at hloop
    refine hloop.mono ?_ (fun _ _ he => he) fun _ hp => hp
    rintro - s₁ ⟨h₁, -, -⟩
    rw [wp_bind, wp_modify]
    have hs := h₁.started
    have hview : Server.view { s₁ with bitmap := true } = disk.backup := h₁.view
    have hrest : ∀ c, disk.lastReserved < c →
        Server.cache { s₁ with bitmap := true } c = none := by
      intro c hc
      change s₁.cache c = none
      rw [h₁.cache c (by omega), if_neg (by omega)]
    generalize ({ s₁ with bitmap := true } : Server) = s₂ at hs hview hrest
    -- the blocks before the end of the bitmap are in use
    have hused : ∀ c, c ≤ disk.lastReserved →
        (!decide (c < s₂.view.nblocks ∧ s₂.view.Free c)) = true := by
      intro c hc
      rw [Bool.not_eq_true', decide_eq_false_iff_not, hview, nblocks_backup, free_backup]
      exact fun hcc => absurd (hwf.own.reserved c hcc.1 hcc.2) (by omega)
    have h2 := @two_le_lastReserved disk
    rw [wp_bind, wp_blockIsFree hs, wp_bind, wp_assert_pos (hused 0 (by omega)), wp_bind,
      wp_blockIsFree hs, wp_bind, wp_assert_pos (hused 1 (by omega))]
    refine (wp_forRange (fun _ s' => s' = s₂) _ _ rfl ?_).mono ?_ (fun _ _ he => he) fun _ hp => hp
    · rintro i s₃ - hi rfl
      rw [wp_bind, wp_blockIsFree hs, wp_assert_pos (hused (i + 2) (by omega))]
    · rintro - s₃ rfl
      exact ⟨hs, hview, hrest⟩
  · rintro i s₁ - hi ⟨h₁, hbit₁, hpl⟩
    rw [wp_bind]
    refine (wp_readBlock_load (fun _ => ⟨?_, ?_⟩) hbit₁ ?_).mono ?_ (fun _ _ he => he)
      fun _ hp => ⟨hp.1, fun hs => hp.2 (hpl hs)⟩
    · rw [h₁.cache 1 (by decide), if_pos (by omega)]
      rfl
    · rw [h₁.view, nblocks_backup]
      have := hwf.fits
      omega
    · rw [h₁.cache _ (by omega), if_neg (by omega)]
    · intro _ s₂ hl
      rw [wp_pure]
      exact ⟨h₁.load (by omega) hl, hl.bitmap.trans hbit₁, fun hs => hl.plenty (hpl hs)⟩

/-- **`fs_init` starts a server on a well formed disk**: all its checks pass.  No block behind the
bitmap is in the cache. -/
lemma wp_fsInit (hwf : WellFormed disk) (mem : ℕ → Bool) :
    wp fsInit (.fresh disk mem) (fun _ s => s.Started ∧ s.view = disk.backup ∧
      ∀ c, disk.lastReserved < c → s.cache c = none) E (Server.fresh disk mem).OutOfMemory := by
  rw [fsInit, wp_bind]
  refine (wp_readSuper hwf.own.magic hwf.own.small rfl rfl rfl rfl).mono ?_ (fun _ _ he => he)
    fun _ hp => hp
  rintro - s₁ ⟨hc₁, hd₁, hbit₁, hpl₁⟩
  rw [wp_bind]
  refine (wp_checkWriteBlock hc₁ hd₁ hbit₁).mono ?_ (fun _ _ he => he)
    fun _ hp => ⟨hp.1, fun hpl => hp.2 (hpl₁ hpl)⟩
  rintro - s₂ ⟨h₂, hbit₂, hpl₂⟩
  exact (wp_readBitmap hwf h₂ hbit₂).mono (fun _ _ hq => hq) (fun _ _ he => he)
    fun _ hp => ⟨hp.1, fun hpl => hp.2 (hpl₂ (hpl₁ hpl))⟩

/-- The words that carry ownership are not in block 0. -/
lemma View.Own.agree_backup {O : Set FileRef} (h : disk.Own O) : Agree O disk disk.backup := by
  intro c i hm
  have h2 := @two_le_lastReserved disk
  rw [View.backup, Function.update_of_ne]
  rcases h.meta_block hm with h1 | h1 <;> omega

lemma View.Own.backup {O : Set FileRef} (h : disk.Own O) : disk.backup.Own O :=
  h.shrink (h.agree_backup.shrinks (by rw [View.backup, Function.update_of_ne (by decide)])
    nblocks_backup fun _ _ => free_backup.mp)

/-- A server that has just been started is sound. -/
lemma WellFormed.sound (hwf : WellFormed disk) (hs : s.Started) (hview : s.view = disk.backup) :
    s.Sound ∅ where
  started := hs
  own := hview ▸ hwf.own.backup
  parents := by
    refine ⟨?_, fun f hf => absurd hf (Set.notMem_empty f)⟩
    rw [hview, field, View.backup, Function.update_of_ne (by decide)]
    exact hwf.root
  opened f hf := absurd hf (Set.notMem_empty f)

/-- A server can be started on a well formed disk. -/
lemma WellFormed.exists_sound (hwf : WellFormed disk) : ∃ s : Server, s.Sound ∅ ∧
    s.view = disk.backup ∧ ∀ c, disk.lastReserved < c → s.cache c = none := by
  have hwp : wp fsInit (.fresh disk fun _ => true) (fun _ s' => s'.Started ∧
      s'.view = disk.backup ∧ ∀ c, disk.lastReserved < c → s'.cache c = none) (fun _ _ => False)
      fun _ => False :=
    (wp_fsInit hwf fun _ => true).mono (fun _ _ hq => hq) (fun _ _ he => he) fun _ hp =>
      hp.2 fun _ => rfl
  obtain ⟨-, s, -, hs, hview, hnone⟩ := hwp.exists_ok
  exact ⟨s, hwf.sound hs hview, hview, hnone⟩

end

end MosRv.Fs
