import MosRv.Fs.Runs

/-!
# Syncing and starting again

`fs_sync` writes every block that is in the cache.  After it the disk holds what the server holds,
so a server that is started on this disk, with an empty cache, has the same bitmap and the same
files, with the same names, types, sizes and contents (`sync_remount`).

This needs the blocks before the end of the bitmap to be in use, which the checks of `read_bitmap`
ask for.  Operations that keep the files apart do not have to keep that: a page that was recycled as
a block of a directory can have an entry in it that names a block of the bitmap, and `file_remove`
frees the block while it looks the entry up and clears it (`remount_fails`).
-/

namespace MosRv.Fs

open Prog View Reach

/-- The views have the same bitmap and the same files with names: the same `struct File`s, with the
same blocks, and the same contents. -/
structure View.SameFiles (v v' : View) : Prop where
  nblocks : v'.nblocks = v.nblocks
  free : ∀ b, b < v.nblocks → (v'.Free b ↔ v.Free b)
  live : ∀ f, v'.Live ∅ f ↔ v.Live ∅ f
  field : ∀ f k, v.Live ∅ f → v'.field f k = v.field f k
  num : ∀ f sl, v.Live ∅ f → sl.Ok → v'.num f sl = v.num f sl
  contents : ∀ f sl, v.Live ∅ f → sl.Ok → v.num f sl ≠ 0 → v' (v.num f sl) = v (v.num f sl)

section

variable {O : Set FileRef} {s s' : Server} {v v' disk : View} {w : World}

/-- Views with the same blocks, except block 0. -/
lemma View.Own.sameFiles (h : v.Own ∅) (hfits : v.lastReserved < v.nblocks)
    (heq : ∀ b, b ≠ 0 → b < v.nblocks → v' b = v b) : SameFiles v v' := by
  have h2 := @two_le_lastReserved v
  have hblock : ∀ f, v.Live ∅ f → v' f.block = v f.block := by
    intro f hf
    rcases h.meta_used (.type hf) with h1 | ⟨hgt, hlt, -⟩
    · exact heq _ (by omega) (by omega)
    · exact heq _ (by omega) hlt
  have hagree : Agree ∅ v v' := by
    intro b i hm
    rcases h.meta_used hm with h1 | ⟨hgt, hlt, -⟩
    · rw [heq b (by omega) (by omega)]
    · rw [heq b (by omega) hlt]
  refine ⟨?_, fun b hb => ?_, fun f => hagree.live, fun f k hf => ?_,
    fun f sl hf hsl => hagree.num hf hsl, fun f sl hf hsl hne => ?_⟩
  · rw [View.nblocks, heq 1 (by decide) (by omega), View.nblocks]
  · have hle := bitmapBlock_le hb
    have hge := @two_le_bitmapBlock b
    rw [Free, heq _ (by omega) (by omega), Free]
  · rw [View.field, hblock f hf, View.field]
  · obtain ⟨hgt, hlt, -⟩ := h.range f sl hf hsl hne
    exact heq _ (by omega) hlt

/-- **What `fs_sync` does**: the disk holds what the server holds. -/
lemma Server.Sound.wp_fsSync_disk (h : s.Sound O) {E : FsErr → Server → Prop} {P : Panic → Prop} :
    wp fsSync s (fun _ s' => s'.cache = s.cache ∧ ∀ b, b < s.view.nblocks → s'.disk b = s.view b)
      E P := by
  rw [fsSync, wp_bind, wp_nblocks h.started]
  refine (wp_forRange (fun i s' => s'.cache = s.cache ∧ (∀ b, b < i → s'.disk b = s.view b) ∧
    ∀ b, s.cache b = none → s'.disk b = s.disk b) _ _
    ⟨rfl, fun b hb => absurd hb (Nat.not_lt_zero b), fun _ _ => rfl⟩ ?_).mono ?_
    (fun _ _ he => he) fun _ hp => hp
  · rintro i s₁ - - ⟨hcache, hdone, hrest⟩
    rw [writeIfDirty, wp_bind, blockIsDirty, wp_blockIsMapped]
    cases hc : s.cache i with
    | none =>
        rw [hcache, hc, if_neg (by exact Bool.false_ne_true), wp_pure]
        refine ⟨hcache, fun b hb => ?_, hrest⟩
        rcases Nat.lt_succ_iff_lt_or_eq.mp hb with hlt | rfl
        · exact hdone b hlt
        · rw [hrest b hc, Server.view, hc, Option.getD_none]
    | some blk =>
        have hc₁ : s₁.cache i = some blk := by rw [hcache, hc]
        rw [hc₁, if_pos (by rfl), wp_writeBlock_eq hc₁]
        refine ⟨hcache, fun b hb => ?_, fun b hb => ?_⟩
        · change Function.update s₁.disk i blk b = _
          by_cases hbi : b = i
          · subst hbi
            rw [Function.update_self, view_of_mapped hc]
          · rw [Function.update_of_ne hbi]
            exact hdone b (by omega)
        · change Function.update s₁.disk i blk b = _
          rw [Function.update_of_ne]
          · exact hrest b hb
          · rintro rfl
            exact absurd (hb.symm.trans hc) (by simp)
  · rintro - s₁ ⟨hcache, hdone, -⟩
    rw [Nat.zero_add] at hdone
    exact ⟨hcache, hdone⟩

/-- A disk that holds what a sound server holds is well formed. -/
lemma Server.Sound.wellFormed (h : s.Sound O) (hfits : s.view.lastReserved < s.view.nblocks)
    (hdisk : ∀ b, b < s.view.nblocks → disk b = s.view b) : WellFormed disk := by
  have hown := h.own.named
  have hsame := hown.sameFiles hfits fun b _ => hdisk b
  have h2 := @two_le_lastReserved s.view
  have hone : disk 1 = s.view 1 := hdisk 1 (by omega)
  refine ⟨⟨?_, ?_, fun b hb hfree => ?_, fun f sl hf hsl hne => ?_,
    fun f sl g sl' hf hg hsl hsl' hne heq => ?_⟩, ?_, ?_⟩
  · rw [hone]
    exact hown.magic
  · rw [hsame.nblocks]
    exact hown.small
  · rw [hsame.nblocks] at hb
    rw [lastReserved_congr hsame.nblocks]
    exact hown.reserved b hb ((hsame.free b hb).mp hfree)
  · have hf := (hsame.live f).mp hf
    rw [hsame.num f sl hf hsl] at hne ⊢
    rw [hsame.nblocks, lastReserved_congr hsame.nblocks]
    obtain ⟨hgt, hlt, hused⟩ := hown.range f sl hf hsl hne
    exact ⟨hgt, hlt, fun hfree => hused ((hsame.free _ hlt).mp hfree)⟩
  · have hf := (hsame.live f).mp hf
    have hg := (hsame.live g).mp hg
    rw [hsame.num f sl hf hsl] at hne heq
    rw [hsame.num g sl' hg hsl'] at heq
    exact hown.inj f sl g sl' hf hg hsl hsl' hne heq
  · rw [hsame.nblocks, lastReserved_congr hsame.nblocks]
    exact hfits
  · rw [hsame.field _ _ .root]
    exact h.parents.root

/-- **Sync then remount is the identity.**  In every state that a run of harmless steps reaches,
`fs_sync` returns; and a server that is started on the disk it leaves passes all checks and has the
same bitmap and the same files, unless it runs out of memory. -/
theorem sync_remount (hwf : WellFormed disk) (h : w.Reaches disk Op.Harmless) :
    ∃ s₁, fsSync w.server = .ok () s₁ ∧ ∀ mem : ℕ → Bool,
      (∃ s₂, fsInit (.fresh s₁.disk mem) = .ok () s₂ ∧ SameFiles w.server.view s₂.view) ∨
      fsInit (.fresh s₁.disk mem) = .panic .outOfMemory ∧ ∃ i, mem i = false := by
  obtain ⟨O, -, hs, hfits⟩ := h.inv hwf
  obtain ⟨⟨⟩, s₁, hsync, -, hdisk⟩ :=
    (hs.wp_fsSync_disk (E := fun _ _ => False) (P := fun _ => False)).exists_ok
  refine ⟨s₁, hsync, fun mem => ?_⟩
  have hinit := wp_fsInit (E := fun _ _ => False) (hs.wellFormed hfits hdisk) mem
  cases hrun : fsInit (.fresh s₁.disk mem) with
  | ok a s₂ =>
      obtain ⟨-, hview, -⟩ := hinit.of_ok hrun
      refine .inl ⟨s₂, rfl, hs.own.named.sameFiles hfits fun b hb hlt => ?_⟩
      rw [hview, View.backup, Function.update_of_ne hb, hdisk b hlt]
  | exit e s₂ => exact (hinit.of_exit hrun).elim
  | panic p =>
      obtain ⟨rfl, hno⟩ := hinit.of_panic hrun
      obtain ⟨i, hi⟩ := not_forall.mp hno
      exact .inr ⟨rfl, i, Bool.eq_false_of_not_eq_true hi⟩

end

/-! ## A recycled page as a block of a directory -/

/-- The world is one with the files of the list, and they pass the check. -/
def World.Checks (files : List FileRef) (w : World) : Prop :=
  w.server.view.Checks files ∧ ∀ f ∈ w.opened, f ∈ files

instance (files : List FileRef) (w : World) : Decidable (w.Checks files) :=
  inferInstanceAs (Decidable (_ ∧ _))

lemma World.Checks.owned {files : List FileRef} {w : World} (h : w.Checks files) : w.Owned := by
  refine ⟨fun f sl hf hsl hne => ?_, fun f sl g sl' => h.1.eq_of_num h.2⟩
  obtain ⟨hgt, hlt, hused⟩ := h.1.owned h.2 hf hsl hne
  have h2 := @two_le_lastReserved w.server.view
  exact ⟨by omega, hlt, hused⟩

/-- The file "a" gets a block, a client writes an entry "x" to its page that owns block 2, and the
file is cut off.  The root is made longer, and "x" is removed. -/
def staleEntry : List Op :=
  [.openFile [0x61#8], .getBlock (.entry 3 0) 0,
    .write (.entry 3 0) 0 (.ofWords [(0, 0x78#32), (32, 4096#32), (34, 2#32)]),
    .setSize (.entry 3 0) 4096#32, .setSize (.entry 3 0) 0#32, .openFile [slash],
    .setSize .root 8192#32, .remove [0x78#8]]

/-- A server cannot be started on the disk that `fs_sync` leaves: an assertion fails. -/
def Server.remountFails (s : Server) : Bool :=
  match fsSync s with
  | .ok _ s₁ =>
      match fsInit (.fresh s₁.disk fun _ => true) with
      | .panic .assert => true
      | _ => false
  | _ => false

/-- The files own their blocks in every state of this run, but block 2, which is the bitmap, has
been freed. -/
theorem remount_fails : ∃ (disk : View) (w : World) (s₁ : Server), WellFormed disk ∧
    w.Reaches disk (fun w _ => w.Owned) ∧ w.Owned ∧ fsSync w.server = .ok () s₁ ∧
    fsInit (.fresh s₁.disk fun _ => true) = .panic .assert := by
  have hrun : ((World.boot oneFileDisk).bind fun w =>
      staleEntry.foldlM (World.next fun w _ => w.Checks [.root, .entry 3 0]) w).any
      (fun w => decide (w.Checks [.root, .entry 3 0]) && w.server.remountFails) = true := by
    decide +kernel
  obtain ⟨w, hw, htest⟩ := World.reaches_of_any _ _ hrun
  rw [Bool.and_eq_true, decide_eq_true_iff, Server.remountFails] at htest
  obtain ⟨hc, htest⟩ := htest
  split at htest
  · rename_i s₁ hsync
    refine ⟨oneFileDisk, w, s₁, wellFormed_oneFileDisk,
      Reachable.mono hw fun _ _ _ hs => ⟨hs.1.owned, hs.2⟩, hc.owned, hsync, ?_⟩
    split at htest
    · assumption
    · exact absurd htest Bool.false_ne_true
  · exact absurd htest Bool.false_ne_true

/-- The file "a" is opened, the server is synced and started again. -/
theorem sync_remount_oneFile : ∃ (w : World) (s₁ s₂ : Server), w.Reaches oneFileDisk Op.Harmless ∧
    w.opened = [.entry 3 0] ∧ fsSync w.server = .ok () s₁ ∧
    fsInit (.fresh s₁.disk fun _ => true) = .ok () s₂ ∧ SameFiles w.server.view s₂.view := by
  obtain ⟨w, hw, hopen⟩ := reaches_oneFile
  obtain ⟨s₁, hsync, hinit⟩ := sync_remount wellFormed_oneFileDisk hw
  rcases hinit fun _ => true with ⟨s₂, hs₂, hsame⟩ | ⟨-, i, hi⟩
  · exact ⟨w, s₁, s₂, hw, hopen, hsync, hs₂, hsame⟩
  · exact absurd hi (by decide)

end MosRv.Fs
