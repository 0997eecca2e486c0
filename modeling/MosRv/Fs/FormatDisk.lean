import MosRv.Fs.FormatRuns
import MosRv.Fs.Resolve

/-!
# The image of `fsformat`

The whole program: the empty disk, the arguments one after the other, the bitmap.  It ends with an
image exactly if the blocks that the files and directories need are there, and the image is a well
formed disk with the tree of the host (`format_round_trip`).
-/

namespace MosRv.Fs

open Prog View

namespace Format

variable {v v' : View} {m i : ℕ} {E : ℕ → Img → Prop} {P : Failure → Prop}

/-! ## The empty disk -/

/-- The disk before the first file. -/
structure Empty (v : View) : Prop where
  magic : v 1 S_MAGIC = FS_MAGIC
  nblocks : v.nblocks = NBLOCK
  isDir : v.IsDir .root
  zero : ∀ k, F_SIZE ≤ k → k ≠ F_TYPE → v.field .root k = 0#32
  blank : v.ZeroFrom 3
  free : ∀ b < NBLOCK, v.Free b

/-- A bit of a word is a bit of a byte. -/
lemma getLsbD_of_byte {w : Word} {k : ℕ} (h : Bits.byte w (k / 8) = 0xff#8) :
    w.getLsbD k = true := by
  have hbit : (Bits.byte w (k / 8)).getLsbD (k % 8) = true := by
    have hlt : k % 8 < 8 := Nat.mod_lt _ (by decide)
    rw [h]
    generalize k % 8 = j at hlt
    interval_cases j <;> rfl
  rw [Bits.byte, BitVec.getLsbD_extractLsb', Bool.and_eq_true] at hbit
  have hdiv : 8 * (k / 8) + k % 8 = k := Nat.div_add_mod k 8
  rw [hdiv] at hbit
  exact hbit.2

/-- The bitmap that `init_disk` writes marks all blocks as free. -/
lemma free_of_bitmap {b : ℕ}
    (h : v 2 = (Block.zero.memset 0xff#8 0 BY2BLK).memset 0x00#8 (NBLOCK % BIT2BLK / 8)
      (BY2BLK - NBLOCK % BIT2BLK / 8)) (hb : b < NBLOCK) : v.Free b := by
  simp only [NBLOCK] at hb
  have hblock : bitmapBlock b = 2 := by
    simp only [bitmapBlock, BIT2BLK]
    omega
  have hword : bitmapWord b = b / 32 := by
    simp only [bitmapWord, BIT2BLK]
    omega
  rw [View.Free, hblock, hword, h]
  refine getLsbD_of_byte ?_
  have hdiv : b / 32 = b / 8 / 4 := by omega
  have hmod : b % 32 / 8 = b / 8 % 4 := by omega
  rw [hdiv, hmod, ← Block.byte, byte_memset, if_neg, byte_memset, if_pos]
  · simp only [BY2BLK]
    omega
  · simp only [NBLOCK, BIT2BLK]
    omega

lemma wp_initDisk {Q : Unit → Img → Prop} (hok : ∀ v, Empty v → Q () ⟨v, 3⟩) :
    wp initDisk .blank Q E P := by
  have hone : nbitblock = 1 := rfl
  have hne : NBLOCK ≠ nbitblock * BIT2BLK := by decide
  rw [initDisk, wp_bind, wp_modify, wp_bind, hone, forRange_succ, forRange_zero, wp_bind,
    wp_changeBlock, wp_pure]
  dsimp only
  rw [if_pos (by decide), wp_bind, wp_changeBlock, wp_bind, wp_storeWord, wp_bind, wp_storeWord,
    wp_bind, wp_storeWord, wp_changeBlock]
  simp only [Nat.sub_self, Nat.add_zero]
  -- the disk with the bitmap
  generalize hX : Function.update (Function.update Img.blank.disk 2 _) 2 _ = X
  have hX2 : X 2 = (Block.zero.memset 0xff#8 0 BY2BLK).memset 0x00#8 (NBLOCK % BIT2BLK / 8)
      (BY2BLK - NBLOCK % BIT2BLK / 8) := by
    rw [← hX, Function.update_self, Function.update_self]
    rfl
  have hXne : ∀ b, b ≠ 2 → X b = Block.zero := by
    intro b hb
    rw [← hX, Function.update_of_ne hb, Function.update_of_ne hb]
    rfl
  generalize hv : Function.update _ FileRef.root.block _ = v
  have hne1 : ∀ b, b ≠ 1 → v b = X b := by
    intro b hb
    have hroot : b ≠ FileRef.root.block := hb
    rw [← hv, Function.update_of_ne hroot, View.store_of_ne _ _ _ _ hroot,
      View.store_of_ne _ _ _ _ hb, View.store_of_ne _ _ _ _ hb]
  -- the words of the super block
  have hsuper : ∀ k, k ≠ 2 → v 1 k = if k = 35 then FTYPE_DIR else if k = 1 then
      BitVec.ofNat 32 NBLOCK else if k = 0 then FS_MAGIC else 0#32 := by
    intro k hk
    have hfar : k < 4 * FileRef.root.word / 4 ∨ 4 * FileRef.root.word + [slash].length < 4 * k := by
      change k < 2 ∨ 8 + 1 < 4 * k
      omega
    change v FileRef.root.block k = _
    have hzero : X 1 k = 0#32 := by
      rw [hXne 1 (by decide)]
      rfl
    rw [← hv, Function.update_self, word_strcpy hfar, View.store_apply, View.store_apply,
      View.store_apply]
    refine if_congr ⟨And.right, fun h => ⟨rfl, h⟩⟩ rfl (if_congr ⟨And.right, fun h => ⟨rfl, h⟩⟩ rfl
      (if_congr ⟨And.right, fun h => ⟨rfl, h⟩⟩ rfl hzero))
  refine hok v ⟨?_, ?_, ?_, fun k hk hne => ?_, fun b hb i => ?_, fun b hb => ?_⟩
  · rw [hsuper _ (by decide)]
    rfl
  · rw [View.nblocks, hsuper _ (by decide)]
    rfl
  · exact hsuper 35 (by decide)
  · simp only [F_SIZE, F_TYPE] at hk hne
    change v 1 (2 + k) = 0#32
    rw [hsuper _ (by omega), if_neg (by omega), if_neg (by omega), if_neg (by omega)]
  · rw [hne1 b (by omega), hXne b (by omega)]
    rfl
  · exact free_of_bitmap ((hne1 2 (by decide)).trans hX2) hb

/-- The root directory has room for entries. -/
lemma Empty.room (h : Empty v) : v.DirAt .root 0 0 3 where
  holder := View.Holder.of_zero (by decide) le_rfl fun k hlo _ => by
    simp only [F_DIRECT] at hlo
    refine h.zero k ?_ ?_
    · simp only [F_SIZE]
      omega
    · simp only [F_TYPE]
      omega
  small := Nat.zero_le _
  size := by rw [h.zero F_SIZE le_rfl (by decide)]; rfl
  named k hk := absurd hk (Nat.not_lt_zero k)
  zero k _ hk := absurd hk (Nat.not_lt_zero k)
  blank := h.blank

/-! ## The arguments -/

/-- The argument is a file or a directory. -/
def Arg.Writable (a : Arg) : Prop := a ≠ .missing ∧ a ≠ .other

instance (a : Arg) : Decidable a.Writable := inferInstanceAs (Decidable (_ ∧ _))

/-- What the root directory is to hold: the arguments under the last names of their paths. -/
def entries : List Arg → Entries
  | [] => .nil
  | .missing :: args => entries args
  | .other :: args => entries args
  | .file path data :: args => .file (lastName path) data (entries args)
  | .dir path inner :: args => .dir (basename path).1 inner (entries args)

lemma wp_writeArgs {args : List Arg} : ∀ {n : ℕ} {v : View} {m : ℕ}, (∀ a ∈ args, a.Writable) →
    (entries args).Ok → v.DirAt .root (blocksOf n) n m → m ≤ NBLOCK →
    (NBLOCK < m + (entries args).cost n → P .outOfDisk) →
    wp (writeArgs args) ⟨v, m⟩
      (fun _ s' => Wrote v .root n (entries args) m s'.disk s'.nextbno) E P := by
  induction args with
  | nil =>
      intro n v m _ _ h hm _
      exact Wrote.nil h hm
  | cons a args ih =>
      intro n v m hw hok h hm hfail
      have hw' : ∀ a ∈ args, a.Writable := fun a ha => hw a (List.mem_cons_of_mem _ ha)
      cases a with
      | missing => exact absurd rfl (hw _ List.mem_cons_self).1
      | other => exact absurd rfl (hw _ List.mem_cons_self).2
      | file path data =>
          rw [writeArgs]
          dsimp only
          rw [wp_bind]
          exact wp_file_rest h hm rfl hok.1 hfail fun v₂ m₂ hroom₂ hm₂ hcost =>
            ih hw' hok.2.2 hroom₂ hm₂ fun hover => hfail (hcost ▸ hover)
      | dir path inner =>
          rw [writeArgs]
          dsimp only
          rw [wp_bind, writeDirectory, wp_bind]
          refine (wp_directory_rest (p := writeArgs args) h hm rfl hok.1 hfail
            (fun e u m₁ hroom₁ hm₁ hover => wp_writeEntries hok.2.2.1 hroom₁ hm₁ hover)
            fun v₂ m₂ hroom₂ hm₂ hcost =>
              ih hw' hok.2.2.2 hroom₂ hm₂ fun hover => hfail (hcost ▸ hover)).mono ?_
            (fun _ _ hE => hE) fun _ hP => hP
          rintro ⟨sub, subpath⟩ s₁ hrun
          exact hrun

/-! ## The bitmap -/

/-- The bits of the blocks before `i` are cleared, and nothing else changes. -/
structure Flushed (v : View) (i : ℕ) (v' : View) : Prop where
  other : ∀ b, b ≠ 2 → v' b = v b
  free : ∀ b < NBLOCK, v'.Free b ↔ v.Free b ∧ i ≤ b

lemma wp_flushBitmap (hm : m ≤ NBLOCK) :
    wp flushBitmap ⟨v, m⟩ (fun _ s' => Flushed v m s'.disk) E P := by
  rw [flushBitmap, wp_bind, wp_get]
  have hloop := @wp_forRange _ _ _ E P (fun i => do
    let w ← loadWord (2 + i / BIT2BLK) (i % BIT2BLK / 32)
    storeWord (2 + i / BIT2BLK) (i % BIT2BLK / 32) (w &&& ~~~(1#32 <<< (i % 32))))
    (fun i s => Flushed v i s.disk) m 0 (s := ⟨v, m⟩)
    ⟨fun _ _ => rfl, fun b _ => ⟨fun h => ⟨h, Nat.zero_le b⟩, And.left⟩⟩ ?_
  · rwa [Nat.zero_add] at hloop
  rintro i ⟨w, k⟩ - hi hfl
  rw [Nat.zero_add] at hi
  change Flushed v i w at hfl
  rw [wp_bind, wp_loadWord, wp_storeWord]
  change Flushed v (i + 1) (w.setUsed i)
  refine ⟨fun b hb => ?_, fun b hb => ?_⟩
  · have hblock : bitmapBlock i = 2 := by
      simp only [NBLOCK] at hm
      simp only [bitmapBlock, BIT2BLK]
      omega
    rw [View.setUsed, hblock, View.store_of_ne _ _ _ _ hb, hfl.other b hb]
  · rw [View.free_setUsed, hfl.free b hb, and_assoc]
    refine and_congr_right fun _ => ?_
    omega

/-- **The finished disk.** -/
lemma formatted {u w : View} {es : Entries} (hempty : Empty u) (hw : Wrote u .root 0 es 3 v m)
    (hfl : Flushed v m w) : w.Formatted es m := by
  -- the words of the super block that are none of the directory's places
  have hkeep : ∀ k, k ≠ FileRef.root.word + F_SIZE →
      (k < FileRef.root.word + F_DIRECT ∨ FileRef.root.word + F_INDIRECT < k) → w 1 k = u 1 k := by
    intro k hsize hk
    rw [hfl.other 1 (by decide)]
    refine hw.only 1 k ?_
    rintro ((⟨hlo, -⟩ | ⟨-, ⟨l, -, hl, rfl⟩ | ⟨-, rfl⟩⟩ | ⟨h0, -⟩) | ⟨-, heq⟩ | ⟨h0, -⟩)
    · exact absurd hlo (by decide)
    · simp only [F_DIRECT, F_INDIRECT, NDIRECT] at hk hl
      omega
    · simp only [F_DIRECT, F_INDIRECT] at hk
      omega
    · exact absurd h0 (Nat.not_lt_zero _)
    · exact hsize heq
    · exact absurd rfl h0
  have hnew : ∀ b, 3 ≤ b → ∀ i, w b i = v b i := fun b hb i => by rw [hfl.other b (by omega)]
  have hroot : ∀ k, w.field .root k = v.field .root k := by
    intro k
    rw [View.field, View.field, hfl.other _ (by decide)]
  refine ⟨?_, ?_, ?_, ?_, ?_, hw.fits, fun b hb => ?_⟩
  · rw [hkeep _ (by decide) (by decide), hempty.magic]
  · rw [View.nblocks, hkeep _ (by decide) (by decide), ← View.nblocks, hempty.nblocks]
  · exact (hkeep _ (by decide) (by decide)).trans (hempty.zero F_DIR (by decide) (by decide))
  · exact (hkeep _ (by decide) (by decide)).trans hempty.isDir
  · refine hw.laid.congr (fun sl hsl => ?_) (hroot _) (fun b hlo _ => hnew b hlo) fun h0 =>
      absurd rfl h0
    refine num_congr (fun k _ _ => hroot k) (fun hne i => hnew _ ?_ i) hsl
    exact (hw.laid.spread.range (.root, .indirect)
      (.inl ⟨rfl, mem_later_zero.mpr Slot.ok_indirect⟩) hne).1
  · rw [hfl.free b hb]
    have hfree : v.Free b ↔ u.Free b := by
      simp only [NBLOCK] at hb
      have hblock : bitmapBlock b = 2 := by
        simp only [bitmapBlock, BIT2BLK]
        omega
      rw [View.Free, View.Free, hblock, hw.only]
      rintro ((⟨hlo, -⟩ | ⟨heq, -⟩ | ⟨h0, -⟩) | ⟨heq, -⟩ | ⟨h0, -⟩)
      · omega
      · exact absurd heq (by decide)
      · exact absurd h0 (Nat.not_lt_zero _)
      · exact absurd heq (by decide)
      · exact absurd rfl h0
    rw [hfree]
    exact and_iff_right (hempty.free b hb)

/-- The blocks that the image needs. -/
def blocksNeeded (args : List Arg) : ℕ := 3 + (entries args).cost 0

/-- **The program makes the disk, or runs out of blocks.** -/
lemma wp_main {args : List Arg} (hne : args ≠ []) (hw : ∀ a ∈ args, a.Writable)
    (hok : (entries args).Ok) :
    wp (main args) .blank (fun img _ => blocksNeeded args ≤ NBLOCK ∧
      img.Formatted (entries args) (blocksNeeded args)) (fun _ _ => False)
      (fun p => p = .outOfDisk ∧ NBLOCK < blocksNeeded args) := by
  rw [main, wp_bind]
  refine wp_initDisk fun u hempty => ?_
  dsimp only
  rw [if_neg hne, wp_bind]
  refine (wp_writeArgs hw hok hempty.room (by decide) fun hover => ⟨rfl, hover⟩).mono ?_
    (fun _ _ hE => hE) fun _ hP => hP
  rintro - ⟨v, m⟩ hwrote
  dsimp only at hwrote
  rw [wp_bind]
  refine (wp_flushBitmap hwrote.fits).mono ?_ (fun _ _ hE => hE) fun _ hP => hP
  rintro - ⟨w, k⟩ hfl
  dsimp only at hfl
  rw [finishFs, wp_bind, wp_get, wp_pure]
  have hform := formatted hempty hwrote hfl
  have hm : m = blocksNeeded args := hwrote.next
  rw [hm] at hform
  exact ⟨hform.fits, hform⟩

/-- There is an image if the blocks suffice. -/
lemma exists_image {args : List Arg} (hne : args ≠ []) (hw : ∀ a ∈ args, a.Writable)
    (hok : (entries args).Ok) (hfits : blocksNeeded args ≤ NBLOCK) :
    ∃ img st, main args .blank = .ok img st ∧ img.Formatted (entries args) (blocksNeeded args) := by
  obtain ⟨hret, hexit, hpanic⟩ := wp_iff.mp (wp_main hne hw hok)
  cases hrun : main args .blank with
  | ok img st => exact ⟨img, st, rfl, (hret img st hrun).2⟩
  | exit e st => exact (hexit e st hrun).elim
  | panic p => exact absurd (hpanic p hrun).2 (not_lt.mpr hfits)

/-- **The image is a copy of the files and directories of the host.**  If they need more blocks than
there are, the program uses a block behind the end of its array. -/
theorem format_round_trip {args : List Arg} (hne : args ≠ []) (hw : ∀ a ∈ args, a.Writable)
    (hok : (entries args).Ok) :
    (NBLOCK < blocksNeeded args → main args .blank = .panic .outOfDisk) ∧
    (blocksNeeded args ≤ NBLOCK → ∃ img st, main args .blank = .ok img st ∧ WellFormed img ∧
      img.IsTree ∧ (∀ b < NBLOCK, img.Free b ↔ blocksNeeded args ≤ b) ∧
      img.Copies (entries args)) := by
  refine ⟨fun hover => ?_, fun hfits => ?_⟩
  · obtain ⟨hret, hexit, hpanic⟩ := wp_iff.mp (wp_main hne hw hok)
    cases hrun : main args .blank with
    | ok img st => exact absurd (hret img st hrun).1 (not_le.mpr hover)
    | exit e st => exact (hexit e st hrun).elim
    | panic p => rw [(hpanic p hrun).1]
  · obtain ⟨img, st, hrun, hform⟩ := exists_image hne hw hok hfits
    exact ⟨img, st, hrun, hform.wellFormed, hform.isTree hok, hform.free, hform.copies hok⟩

/-- The file "d/a" in a directory "d" that is given as "x/d/", and an empty file. -/
def smallArgs : List Arg :=
  [.dir [0x78#8, slash, 0x64#8, slash] (.file [0x61#8] [0x68#8, 0x69#8] .nil), .file [0x65#8] []]

theorem format_round_trip_small : ∃ img st, main smallArgs .blank = .ok img st ∧ WellFormed img ∧
    img.IsTree ∧ (∀ b < NBLOCK, img.Free b ↔ blocksNeeded smallArgs ≤ b) ∧
    img.Copies (entries smallArgs) :=
  (format_round_trip (show smallArgs ≠ [] by decide) (by decide) (by decide)).2 (by decide)

/-! ## A server on the image -/

/-- The server's copy of the super block is in a block that the image does not use. -/
lemma formatted_backup {img : View} {es : Entries} (h : img.Formatted es m) :
    img.backup.Formatted es m := by
  have hother : ∀ b, b ≠ 0 → img.backup b = img b := fun b hb => Function.update_of_ne hb _ _
  have hroot : ∀ k, img.backup.field .root k = img.field .root k := by
    intro k
    rw [View.field, View.field, hother _ (by decide)]
  refine ⟨?_, ?_, ?_, ?_, ?_, h.fits, fun b hb => ?_⟩
  · rw [hother 1 (by decide), h.magic]
  · rw [nblocks_backup, h.nblocks]
  · rw [hroot, h.parent]
  · rw [View.IsDir, hroot]
    exact h.isDir
  · refine h.laid.congr (fun sl hsl => ?_) (hroot _)
      (fun b hlo _ i => by rw [hother b (by omega)]) fun h0 => absurd rfl h0
    refine num_congr (fun k _ _ => hroot k) (fun hne i => ?_) hsl
    rw [hother _ hne]
  · rw [free_backup, h.free b hb]

/-- **What the server reads is what the host had.**  A server that is started on the image opens a
file under the path that it has on the host, and each of its blocks holds the bytes of the host's
file; it only stops if it is refused memory. -/
theorem image_served {args : List Arg} {img : View} {st : Img} {path data : List Byte} {n : ℕ}
    (hne : args ≠ []) (hw : ∀ a ∈ args, a.Writable) (hok : (entries args).Ok)
    (himg : main args .blank = .ok img st) (hstr : IsString path)
    (hfind : (Node.dir (entries args)).find (pieces path) = some (.file data))
    (hn : BY2BLK * n < data.length) (mem : ℕ → Bool) :
    wp (do
      fsInit
      let f ← fileOpen path
      let b ← fileGetBlock f n
      loadBlock b) (.fresh img mem)
      (fun blk _ => ∀ j < BY2BLK, (hj : BY2BLK * n + j < data.length) →
        blk.byte j = data[BY2BLK * n + j]) (fun _ _ => False)
      (Server.fresh img mem).OutOfMemory := by
  have hans := Maintains.bind answered_fsInit fun _ => .bind (answered_fileOpen path) fun f =>
    .bind (answered_fileGetBlock f n) fun b => answered_loadBlock b
  refine Answered.outOfMemory hans ?_
  have hform := ((wp_main hne hw hok).of_ok himg).2
  have hwf := hform.wellFormed
  have hback := formatted_backup hform
  rw [wp_bind]
  refine (wp_fsInit hwf mem).mono ?_ (fun _ _ he => he) fun _ hp => hp.1
  rintro - s ⟨hs, hview, -⟩
  have hsound := hwf.sound hs hview
  rw [← hview] at hback
  have ht := hback.isTree hok
  obtain ⟨f, hf, m, m', hm, hfile⟩ := hback.exists_leads hok hfind
  rw [wp_bind, fileOpen, wp_bind]
  refine (hsound.wp_walkPath_tree (E := fun _ _ => False) ht hstr).mono ?_ (fun _ _ he => he)
    fun _ hp => hp
  rintro ⟨err, dir, file, lastelem⟩ s₁ ⟨hres, hsame, O', hsound₁, hopen, -⟩
  obtain rfl : err = none := hres.found.mpr ⟨f, hf⟩
  obtain rfl : file = some f := (hres.file f).mpr hf
  dsimp only
  rw [wp_pure, wp_bind]
  -- the file is the same after the walk
  have hlive : s.view.Live ∅ f := ht.live hf
  have hlive₁ : s₁.view.Live O' f := (hsame.isTree ht).live ((hsame.leads ht).mpr hf)
  have hmapped : (s₁.cache f.block).isSome := by
    rcases hopen f rfl with rfl | hmem
    · exact hsound₁.started.superMapped
    · exact hsound₁.opened f hmem
  have hchunk : n < chunks data := by
    simp only [chunks, BY2BLK] at *
    omega
  have hsmall : n < NINDIRECT := hchunk.trans_le hfile.small
  have hnum : s.view.num f (.of n) = fileBlock m n := hfile.block n hchunk
  have hne0 : s.view.num f (.of n) ≠ 0 := by
    rw [hnum]
    exact Nat.ne_of_gt (hm.trans_le le_fileBlock)
  have hdata := Slot.data_of hsmall
  have hnum₁ : s₁.view.num f (.of n) = s.view.num f (.of n) := hsame.num f _ hlive hdata.ok
  have hreg : ¬ s.view.IsDir f := fun hdir => absurd (hfile.type.symm.trans hdir) (by decide)
  refine (hsound₁.wp_fileGetBlock_filled hlive₁ hmapped hsmall (hnum₁ ▸ hne0)).mono ?_
    (fun _ _ he => he) fun _ hp => hp
  rintro b s₂ ⟨rfl, hbec, -, hcached⟩
  rw [wp_loadBlock hcached, hbec.view, hnum₁, hsame.data f _ hlive hreg hdata hne0, hnum]
  intro j hj hlt
  have hdiv : (BY2BLK * n + j) / BY2BLK = n := by
    simp only [BY2BLK] at *
    omega
  have hmod : (BY2BLK * n + j) % BY2BLK = j := by
    simp only [BY2BLK] at *
    omega
  have hbyte := hfile.byte (BY2BLK * n + j) hlt
  rwa [hdiv, hmod] at hbyte

/-- The file "d/a" of the small image, with memory for everything. -/
theorem image_served_small : ∃ img st blk s, main smallArgs .blank = .ok img st ∧ (do
      fsInit
      let f ← fileOpen [slash, 0x64#8, slash, 0x61#8]
      let b ← fileGetBlock f 0
      loadBlock b : FsM Block) (.fresh img fun _ => true) = .ok blk s ∧
    ∀ j < BY2BLK, (hj : BY2BLK * 0 + j < [0x68#8, 0x69#8].length) →
      blk.byte j = [0x68#8, 0x69#8][BY2BLK * 0 + j] := by
  obtain ⟨img, st, hrun, -⟩ := exists_image (show smallArgs ≠ [] by decide) (by decide)
    (by decide) (by decide)
  have hserved := image_served (by decide) (by decide) (by decide) hrun
    (show IsString [slash, 0x64#8, slash, 0x61#8] by rw [IsString]; decide) (by decide)
    (show BY2BLK * 0 < [0x68#8, 0x69#8].length by decide) fun _ => true
  have hplenty : (Server.fresh img fun _ => true).Plenty := fun _ => rfl
  obtain ⟨blk, s, hblk, hbytes⟩ := hplenty.exists_ok hserved
  exact ⟨img, st, blk, s, hrun, hblk, hbytes⟩

end Format

end MosRv.Fs
