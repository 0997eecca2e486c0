import MosRv.Fs.Check
import MosRv.Lib.Reach

/-!
# Runs of the file system

A *world* is the server with the files that have been opened.  Its steps are the operations of
`fs.c` on paths and on open files, and the writes of clients to pages of regular files.

The cache is never invalidated: the page of a block that is freed keeps its old contents, and when
the block is taken again it is the page that counts.  A client may have written anything to it.
`Op.Harmless` excludes that such a page becomes an indirect block or a block of a directory, and
that a file is used whose directory has lost the block that it sits in.  In every run whose steps
are harmless no block is in two slots, and no operation meets a block that does not exist or that is
free (`blocks_owned`).
-/

namespace MosRv.Fs

open Prog View Reach

/-! ## Operations -/

inductive Op
  | openFile (path : List Byte)
  | getBlock (f : FileRef) (n : ℕ)
  | setSize (f : FileRef) (size : Word)
  | dirty (f : FileRef) (offset : ℕ)
  | flush (f : FileRef)
  | close (f : FileRef)
  | remove (path : List Byte)
  | sync
  /-- A client writes to the page of block `n` of the file. -/
  | write (f : FileRef) (n : ℕ) (blk : Block)

/-- What an operation returns. -/
inductive Reply
  | done
  | file (f : FileRef)
  | block (b : ℕ)

/-- The files that the operation opened. -/
def Reply.files : Reply → List FileRef
  | .file f => [f]
  | _ => []

structure World where
  server : Server
  opened : List FileRef

namespace Op

def run : Op → FsM Reply
  | openFile path => do
      let f ← fileOpen path
      pure (.file f)
  | getBlock f n => do
      let b ← fileGetBlock f n
      pure (.block b)
  | setSize f size => do
      fileSetSize f size
      pure .done
  | dirty f offset => do
      fileDirty f offset
      pure .done
  | flush f => do
      fileFlush f
      pure .done
  | close f => do
      fileClose f
      pure .done
  | remove path => do
      fileRemove path
      pure .done
  | sync => do
      fsSync
      pure .done
  | write f n blk => do
      modify fun s => s.put (s.view.num f (.of n)) blk
      pure .done

/-- The operation can be asked for: paths are strings, files are open, and a client writes to a page
of a regular file that is there. -/
def Valid (w : World) : Op → Prop
  | openFile path | remove path => IsString path
  | getBlock f _ | setSize f _ | dirty f _ | flush f | close f => f ∈ w.opened
  | sync => True
  | write f n _ => f ∈ w.opened ∧ ¬ w.server.view.IsDir f ∧ n < NINDIRECT ∧
      w.server.view.num f (.of n) ≠ 0 ∧ (w.server.cache (w.server.view.num f (.of n))).isSome

/-- The world after an operation, unless the server stops. -/
def exec (w : World) (op : Op) : Option World :=
  match op.run w.server with
  | .ok r s => some ⟨s, r.files ++ w.opened⟩
  | .exit _ s => some ⟨s, w.opened⟩
  | .panic _ => none

end Op

namespace World

/-- The files that have a name or are open. -/
def Live (w : World) (f : FileRef) : Prop := w.server.view.Live { g | g ∈ w.opened } f

def Step (w : World) (op : Op) (w' : World) : Prop := op.Valid w ∧ op.exec w = some w'

/-- The worlds in which a server has just been started on the disk. -/
def Starts (disk : View) (w : World) : Prop :=
  ∃ mem s, fsInit (.fresh disk mem) = .ok () s ∧ w = ⟨s, []⟩

/-- The worlds that runs of steps in `C` reach. -/
def Reaches (disk : View) (C : World → Op → Prop) : World → Prop :=
  Reachable (Starts disk) (When C Step)

end World

/-- No page with old contents becomes an indirect block or a block of a directory, and a file that
is used still sits in a block of its directory. -/
def Op.Harmless (w : World) : Op → Prop
  | openFile _ | remove _ => w.server.WalkReady
  | getBlock f n => w.Live f ∧ w.server.Ready f n
  | setSize f _ | dirty f _ | flush f | close f | write f _ _ => w.Live f
  | sync => True

/-- Every block number that a file with a name, or an open one, holds is the number of a block that
is on the disk, behind the bitmap and in use, and no other slot holds it. -/
structure World.Owned (w : World) : Prop where
  range : ∀ f sl, w.Live f → sl.Ok → w.server.view.num f sl ≠ 0 →
    3 ≤ w.server.view.num f sl ∧ w.server.view.num f sl < w.server.view.nblocks ∧
      ¬ w.server.view.Free (w.server.view.num f sl)
  inj : ∀ f sl g sl', w.Live f → w.Live g → sl.Ok → sl'.Ok → w.server.view.num f sl ≠ 0 →
    w.server.view.num f sl = w.server.view.num g sl' → f = g ∧ sl = sl'

/-! ## What an operation does -/

/-- What an operation does to a sound server: `r` is the reply, or none if there is an error, and
`O'` are the open files afterwards. -/
inductive Op.Does (O : Set FileRef) (s : Server) : Op → Option Reply → Set FileRef → Server → Prop
  | opened {path : List Byte} {f : FileRef} {O' : Set FileRef} {s' : Server}
      (hw : s.Walked O O' s') (hf : f = .root ∨ f ∈ O') :
      Does O s (openFile path) (some (.file f)) O' s'
  | notOpened {path : List Byte} {O' : Set FileRef} {s' : Server} (hw : s.Walked O O' s') :
      Does O s (openFile path) none O' s'
  | got {f : FileRef} {n b : ℕ} {s' : Server} (hn : n < NINDIRECT) (hf : s.view.Live O f)
      (hready : s.Ready f n) (hr : s.Runs O s') (hg : s.view.Grown s.page f n s'.view)
      (hb : b = s'.view.num f (.of n)) (hne : b ≠ 0) :
        Does O s (getBlock f n) (some (.block b)) O s'
  | notGot {f : FileRef} {n : ℕ} {s' : Server} (hf : s.view.Live O f) (hready : s.Ready f n)
      (hr : s.Runs O s') (hg : s.view.NotGrown s.page f n s'.view) :
      Does O s (getBlock f n) none O s'
  | sized {f : FileRef} {size : Word} {s' : Server} (hf : s.view.Live O f)
      (hb : s.Becomes (s.view.setSize f size) s') : Does O s (setSize f size) (some .done) O s'
  | dirtied {f : FileRef} {offset : ℕ} {s' : Server} (hb : s.Becomes s.view s') :
      Does O s (dirty f offset) (some .done) O s'
  | notDirtied {f : FileRef} {offset : ℕ} {s' : Server} (hb : s.Becomes s.view s') :
      Does O s (dirty f offset) none O s'
  | flushed {f : FileRef} {s' : Server} (hb : s.Becomes s.view s') :
      Does O s (flush f) (some .done) O s'
  | closed {f : FileRef} {s' : Server} (hb : s.Becomes s.view s') :
      Does O s (close f) (some .done) O s'
  | removed {path : List Byte} {f : FileRef} {O' : Set FileRef} {s₁ s' : Server}
      (hopen : fileOpen path s = .ok f s₁) (hw : s.Walked O O' s₁) (hf : f = .root ∨ f ∈ O')
      (hlive : s₁.view.Live O' f) (hb : s₁.Becomes (s₁.view.remove f) s') :
      Does O s (remove path) (some .done) O' s'
  | notRemoved {path : List Byte} {O' : Set FileRef} {s' : Server} (hw : s.Walked O O' s') :
      Does O s (remove path) none O' s'
  | synced {s' : Server} (hb : s.Becomes s.view s') : Does O s sync (some .done) O s'
  | wrote {f : FileRef} {n : ℕ} {blk : Block} {s' : Server} (hn : n < NINDIRECT)
      (hf : s.view.Live O f) (hreg : ¬ s.view.IsDir f) (hne : s.view.num f (.of n) ≠ 0)
      (hb : s.Becomes (Function.update s.view (s.view.num f (.of n)) blk) s') :
      Does O s (write f n blk) (some .done) O s'

section

variable {O O' : Set FileRef} {s s' : Server} {w w' : World} {f : FileRef} {disk : View} {op : Op}
  {r : Option Reply}

lemma Op.Does.subset (h : op.Does O s r O' s') : O ⊆ O' := by
  cases h with
  | opened hw | notOpened hw | notRemoved hw | removed _ hw => exact hw.subset
  | _ => exact subset_rfl

/-- An operation on a sound server leaves a sound server, with the same number of blocks. -/
lemma Op.Does.sound (h : op.Does O s r O' s') (hs : s.Sound O) :
    s'.Sound O' ∧ s'.view.nblocks = s.view.nblocks := by
  have hruns : ∀ {O s s'}, Server.Sound O s → s.Runs O s' →
      s'.Sound O ∧ s'.view.nblocks = s.view.nblocks :=
    fun hs hr => ⟨hs.runs hr, hr.edits.nblocks hs.own⟩
  have hsame : ∀ {s'}, s.Becomes s.view s' → s'.Sound O ∧ s'.view.nblocks = s.view.nblocks :=
    fun hb => hruns hs hb.runs_same
  cases h with
  | opened hw | notOpened hw | notRemoved hw => exact ⟨hw.sound, hw.extends_.nblocks⟩
  | got _ _ _ hr | notGot _ _ hr => exact hruns hs hr
  | sized hf hb => exact hruns hs (hb.runs (hs.own.edits_setSize hf _).1)
  | dirtied hb | notDirtied hb | flushed hb | closed hb | synced hb => exact hsame hb
  | removed _ hw hf hlive hb =>
      obtain ⟨hs', hn⟩ := hruns hw.sound (hb.runs (hw.sound.own.edits_remove hlive hf).1)
      exact ⟨hs', hn.trans hw.extends_.nblocks⟩
  | wrote hn hf hreg hne hb =>
      exact hruns hs (hb.runs (.single (.data _ hf hreg (Slot.data_of hn) hne)))

lemma World.Live.sound (h : w.Live f) (hO : ∀ f ∈ w.opened, f ∈ O) : w.server.view.Live O f :=
  View.Live.mono h hO

/-- **A harmless operation does what `Op.Does` says**, and stops only for want of memory. -/
lemma Server.Sound.wp_op (hs : w.server.Sound O) (hO : ∀ f ∈ w.opened, f ∈ O) (hv : op.Valid w)
    (hh : op.Harmless w) :
    wp op.run w.server (fun r s' => ∃ O', op.Does O w.server (some r) O' s')
      (fun _ s' => ∃ O', op.Does O w.server none O' s') Panic.Memory := by
  cases op with
  | openFile path =>
      rw [Op.run, wp_bind]
      refine (hs.wp_fileOpen hh hv).mono ?_ ?_ fun _ hp => hp
      · rintro f s₁ ⟨O', h₁, hf, -⟩
        exact ⟨O', .opened h₁ hf⟩
      · rintro e s₁ ⟨O', h₁⟩
        exact ⟨O', .notOpened h₁⟩
  | getBlock f n =>
      have hf := hh.1.sound hO
      rw [Op.run, wp_bind]
      refine (hs.wp_fileGetBlock hf (hs.mapped (.inr (hO f hv))) hh.2).mono ?_ ?_ fun _ hp => hp
      · rintro b s₁ ⟨hn, hr, -, -, hg, hb, hne, -⟩
        exact ⟨O, .got hn hf hh.2 hr hg hb hne⟩
      · rintro e s₁ ⟨hr, -, hg⟩
        exact ⟨O, .notGot hf hh.2 hr hg⟩
  | setSize f size =>
      have hf := World.Live.sound hh hO
      rw [Op.run, wp_bind]
      refine (hs.wp_fileSetSize (.inr (hO f hv)) hf size).mono ?_ (fun _ _ he => he) fun _ hp => hp
      intro _ s₁ hb
      exact ⟨O, .sized hf hb⟩
  | dirty f offset =>
      rw [Op.run, wp_bind]
      refine (hs.wp_fileDirty (World.Live.sound hh hO)
        (hs.mapped (.inr (hO f hv))) offset).mono ?_ ?_
        fun _ hp => hp
      · intro _ s₁ hs₁
        exact ⟨O, .dirtied hs₁.becomes⟩
      · intro _ s₁ hs₁
        exact ⟨O, .notDirtied hs₁.becomes⟩
  | flush f =>
      rw [Op.run, wp_bind]
      refine (hs.wp_fileFlush (World.Live.sound hh hO) (hs.mapped (.inr (hO f hv)))).mono ?_
        (fun _ _ he => he) fun _ hp => hp
      intro _ s₁ hs₁
      exact ⟨O, .flushed hs₁.becomes⟩
  | close f =>
      rw [Op.run, wp_bind]
      refine (hs.wp_fileClose (.inr (hO f hv)) (World.Live.sound hh hO)).mono ?_ (fun _ _ he => he)
        fun _ hp => hp
      intro _ s₁ hs₁
      exact ⟨O, .closed hs₁.becomes⟩
  | remove path =>
      rw [Op.run, wp_bind]
      refine (hs.wp_fileRemove hh hv).mono ?_ ?_ fun _ hp => hp
      · rintro - s₂ ⟨O', s₁, f, hopen, h₁, hf, hlive, hb⟩
        exact ⟨O', .removed hopen h₁ hf (hlive.mono (Set.empty_subset O')) hb⟩
      · rintro e s₁ ⟨O', h₁⟩
        exact ⟨O', .notRemoved h₁⟩
  | sync =>
      rw [Op.run, wp_bind]
      refine hs.wp_fsSync.mono ?_ (fun _ _ he => he) fun _ hp => hp
      intro _ s₁ hs₁
      exact ⟨O, .synced hs₁.becomes⟩
  | write f n blk =>
      obtain ⟨-, hreg, hn, hne, -⟩ := hv
      rw [Op.run, wp_bind, wp_modify, wp_pure]
      exact ⟨O, .wrote hn (World.Live.sound hh hO) hreg hne (becomes_put blk)⟩

/-! ## The invariant -/

/-- The server is sound for the open files and those that paths were walked through. -/
def World.Inv (w : World) : Prop :=
  ∃ O, (∀ f ∈ w.opened, f ∈ O) ∧ w.server.Sound O ∧
    w.server.view.lastReserved < w.server.view.nblocks

/-- The root counts as open. -/
lemma Server.Sound.insert_root (h : s.Sound O) : s.Sound (Insert.insert .root O) where
  started := h.started
  own := h.own.congr fun _ hg => (live_insert .root).mp hg
  parents := by
    refine ⟨h.parents.root, ?_⟩
    rintro g (rfl | hg) hlive hne
    · exact absurd h.parents.root hne
    · obtain ⟨d, hd, haddr⟩ := h.parents.open_ g hg ((live_insert .root).mp hlive) hne
      exact ⟨d, ⟨hd.known.imp_right .inr, (live_insert .root).mpr hd.live, hd.isDir,
        hd.block⟩, haddr⟩
  opened := by
    rintro g (rfl | hg)
    · exact h.started.superMapped
    · exact h.opened g hg

lemma World.Inv.owned (h : w.Inv) : w.Owned := by
  obtain ⟨O, hO, hs, -⟩ := h
  refine ⟨fun f sl hf hsl hne => ?_, fun f sl g sl' hf hg => ?_⟩
  · obtain ⟨hgt, hlt, hused⟩ := hs.own.range f sl (hf.sound hO) hsl hne
    have h2 := @two_le_lastReserved w.server.view
    exact ⟨by omega, hlt, hused⟩
  · exact hs.own.inj f sl g sl' (hf.sound hO) (hg.sound hO)

/-- After `fs_init` the blocks that are not reserved have no pages. -/
lemma WellFormed.clean {s : Server} (hwf : WellFormed disk) (hview : s.view = disk.backup)
    (hrest : ∀ c, disk.lastReserved < c → s.cache c = none) : s.Clean := by
  intro b hb hfree
  rw [hview, nblocks_backup] at hb
  rw [hview, free_backup] at hfree
  rw [Server.page, hrest b (hwf.own.reserved b hb hfree), Option.getD_none]

/-- The pages of the free blocks hold nothing at the start. -/
lemma World.Starts.clean (hwf : WellFormed disk) (h : w.Starts disk) : w.server.Clean := by
  obtain ⟨mem, s, hinit, rfl⟩ := h
  obtain ⟨-, hview, hrest⟩ := (wp_fsInit (E := fun _ _ => True) hwf mem).of_ok hinit
  exact hwf.clean hview hrest

lemma World.Starts.inv (hwf : WellFormed disk) (h : w.Starts disk) : w.Inv := by
  obtain ⟨mem, s, hinit, rfl⟩ := h
  obtain ⟨hs, hview, -⟩ := (wp_fsInit (E := fun _ _ => True) hwf mem).of_ok hinit
  refine ⟨∅, nofun, hwf.sound hs hview, ?_⟩
  rw [hview, lastReserved_congr nblocks_backup, nblocks_backup]
  exact hwf.fits

/-- The files that are open after an operation. -/
lemma Op.Does.opened_subset (h : op.Does O s r O' s') (hO : ∀ f ∈ w.opened, f ∈ O) :
    ∀ f ∈ (r.elim [] Reply.files) ++ w.opened, f ∈ Insert.insert FileRef.root O' := by
  intro f hf
  rcases List.mem_append.mp hf with hf | hf
  · cases h with
    | @opened path g O' s' hw hg =>
        obtain rfl := List.mem_singleton.mp hf
        exact hg
    | _ => exact absurd hf List.not_mem_nil
  · exact .inr (h.subset (hO f hf))

/-- What an operation does keeps the invariant. -/
lemma Op.Does.inv (h : op.Does O w.server r O' s') (hs : w.server.Sound O)
    (hO : ∀ f ∈ w.opened, f ∈ O) (hfits : w.server.view.lastReserved < w.server.view.nblocks) :
    World.Inv ⟨s', (r.elim [] Reply.files) ++ w.opened⟩ := by
  obtain ⟨hs', hn⟩ := h.sound hs
  refine ⟨Insert.insert .root O', h.opened_subset hO, hs'.insert_root, ?_⟩
  rw [lastReserved_congr hn, hn]
  exact hfits

/-- The world after an operation is what the server made of it. -/
lemma Op.wp_of_exec {Q : Reply → Server → Prop} {E : FsErr → Server → Prop} {P : Panic → Prop}
    (hexec : op.exec w = some w') (hwp : wp op.run w.server Q E P) :
    (∃ r s, Q r s ∧ w' = ⟨s, r.files ++ w.opened⟩) ∨ ∃ e s, E e s ∧ w' = ⟨s, w.opened⟩ := by
  rw [Op.exec] at hexec
  cases hrun : op.run w.server with
  | ok r s =>
      rw [hrun] at hexec
      exact .inl ⟨r, s, hwp.of_ok hrun, (Option.some.inj hexec).symm⟩
  | exit e s =>
      rw [hrun] at hexec
      exact .inr ⟨e, s, hwp.of_exit hrun, (Option.some.inj hexec).symm⟩
  | panic p =>
      rw [hrun] at hexec
      exact absurd hexec nofun

/-- **A harmless operation keeps the invariant** and stops only for want of memory. -/
lemma World.Inv.wp_run (h : w.Inv) (hv : op.Valid w) (hh : op.Harmless w) :
    wp op.run w.server (fun r s' => World.Inv ⟨s', r.files ++ w.opened⟩)
      (fun _ s' => World.Inv ⟨s', w.opened⟩) Panic.Memory := by
  obtain ⟨O, hO, hs, hfits⟩ := h
  refine (hs.wp_op hO hv hh).mono ?_ ?_ fun _ hp => hp
  · rintro r s' ⟨O', hd⟩
    exact hd.inv hs hO hfits
  · rintro e s' ⟨O', hd⟩
    exact hd.inv hs hO hfits

lemma World.Inv.step (h : w.Inv) (hh : op.Harmless w) (hstep : w.Step op w') : w'.Inv := by
  obtain ⟨hv, hexec⟩ := hstep
  obtain ⟨r, s, hinv, rfl⟩ | ⟨e, s, hinv, rfl⟩ := Op.wp_of_exec hexec (h.wp_run hv hh)
  · exact hinv
  · exact hinv

lemma World.Reaches.inv (hwf : WellFormed disk) (h : w.Reaches disk Op.Harmless) : w.Inv :=
  Reachable.invariant h (fun _ hw => hw.inv hwf) fun _ _ _ hw hstep => hw.step hstep.1 hstep.2

/-- **The block ownership invariant.**  In every run of harmless steps from a well formed disk,
every block number that a file holds is that of a block in use, and no other slot holds it; and a
harmless operation stops the server only if a page fault finds no memory, so `read_block` neither
meets a block that does not exist nor one that is free. -/
theorem blocks_owned (hwf : WellFormed disk) (h : w.Reaches disk Op.Harmless) :
    w.Owned ∧ ∀ op : Op, op.Valid w → op.Harmless w → ∀ p, op.run w.server = .panic p →
      p = .outOfMemory := by
  have hinv := h.inv hwf
  exact ⟨hinv.owned, fun op hv hh p hp => (hinv.wp_run hv hh).of_panic hp⟩

end

/-! ## Runs by evaluation -/

instance (w : World) (op : Op) : Decidable (op.Valid w) :=
  match op with
  | .openFile path => inferInstanceAs (Decidable (0#8 ∉ path))
  | .remove path => inferInstanceAs (Decidable (0#8 ∉ path))
  | .getBlock f _ => inferInstanceAs (Decidable (f ∈ w.opened))
  | .setSize f _ => inferInstanceAs (Decidable (f ∈ w.opened))
  | .dirty f _ => inferInstanceAs (Decidable (f ∈ w.opened))
  | .flush f => inferInstanceAs (Decidable (f ∈ w.opened))
  | .close f => inferInstanceAs (Decidable (f ∈ w.opened))
  | .sync => inferInstanceAs (Decidable True)
  | .write _ _ _ => inferInstanceAs (Decidable (_ ∧ _ ∧ _ ∧ _ ∧ _))

/-- The server is started on the disk. -/
def World.boot (disk : View) : Option World :=
  match fsInit (.fresh disk fun _ => true) with
  | .ok _ s => some ⟨s, []⟩
  | _ => none

/-- The next world, if the operation is in `C` and can be asked for. -/
def World.next (C : World → Op → Prop) [∀ w op, Decidable (C w op)] (w : World) (op : Op) :
    Option World :=
  if C w op ∧ op.Valid w then op.exec w else none

section

variable {C : World → Op → Prop} [∀ w op, Decidable (C w op)] {disk : View} {w w' : World}

lemma World.step_next {op : Op} (h : w.next C op = some w') : When C World.Step w op w' := by
  rw [World.next] at h
  split_ifs at h with hc
  exact ⟨hc.1, hc.2, h⟩

lemma World.starts_boot (h : World.boot disk = some w) : w.Starts disk := by
  rw [World.boot] at h
  split at h
  · rename_i s hs
    obtain rfl := Option.some.inj h
    exact ⟨_, s, hs, rfl⟩
  · exact absurd h nofun

/-- A run from the disk, by evaluation, to a world that passes a test. -/
lemma World.reaches_of_any (ops : List Op) (test : World → Bool)
    (h : ((World.boot disk).bind fun w => ops.foldlM (World.next C) w).any test = true) :
    ∃ w, w.Reaches disk C ∧ test w = true := by
  obtain ⟨w, hw, ht⟩ := (Option.any_eq_true _ _).mp h
  obtain ⟨w₀, hw₀, hr⟩ := Option.bind_eq_some_iff.mp hw
  have hinit : w₀.Reaches disk C := .init (World.starts_boot hw₀)
  exact ⟨w, hinit.foldlM (fun _ _ _ => World.step_next) hr, ht⟩

end

/-! ## A recycled page as an indirect block -/

/-- A block with some words in it. -/
def Block.ofWords (words : List (ℕ × Word)) : Block :=
  fun i => ((words.find? fun p => p.1 = i).map Prod.snd).getD 0#32

/-- A disk with an empty file "a" and two free blocks. -/
def oneFileDisk : View
  | 1 => .ofWords [(0, FS_MAGIC), (1, 6#32), (34, 4096#32), (35, FTYPE_DIR), (36, 3#32)]
  | 2 => .ofWords [(0, 0b110000#32)]
  | 3 => .ofWords [(0, 0x61#32)]
  | _ => Block.zero

lemma wellFormed_oneFileDisk : WellFormed oneFileDisk :=
  wellFormed_of_checks [.root, .entry 3 0] (by decide) (by decide)
    (by decide) (by decide) (by decide) (by decide)

/-- The file "a" gets a block, a client writes to its page, and the file is cut off. -/
def stalePage : List Op :=
  [.openFile [0x61#8], .getBlock (.entry 3 0) 0,
    .write (.entry 3 0) 0 (.ofWords [(10, 0xFFFFFF#32)]),
    .setSize (.entry 3 0) 4096#32, .setSize (.entry 3 0) 0#32]

/-- The server stops for a block that does not exist. -/
def Op.readsNonExistent (op : Op) (s : Server) : Bool :=
  match op.run s with
  | .panic .nonExistent => true
  | _ => false

/-- The block is taken again as the indirect block of the file, with the page that the client wrote
to.  Its block 10 is then the block 0xFFFFFF. -/
theorem blocks_not_owned : ∃ (disk : View) (w : World) (op : Op), WellFormed disk ∧
    w.Reaches disk (fun _ _ => True) ∧ op.Valid w ∧ op.run w.server = .panic .nonExistent := by
  have hrun : ((World.boot oneFileDisk).bind fun w =>
      stalePage.foldlM (World.next fun _ _ => True) w).any
      (fun w => decide ((Op.getBlock (.entry 3 0) 10).Valid w) &&
        (Op.getBlock (.entry 3 0) 10).readsNonExistent w.server) = true := by
    decide +kernel
  obtain ⟨w, hw, htest⟩ := World.reaches_of_any _ _ hrun
  rw [Bool.and_eq_true, decide_eq_true_iff, Op.readsNonExistent] at htest
  obtain ⟨hv, htest⟩ := htest
  refine ⟨oneFileDisk, w, .getBlock (.entry 3 0) 10, wellFormed_oneFileDisk, hw, hv, ?_⟩
  split at htest
  · assumption
  · exact absurd htest Bool.false_ne_true

/-- A path is walked when no free block is in the cache. -/
def Op.FirstWalk (w : World) : Op → Prop
  | openFile _ => ∀ b < w.server.view.nblocks, w.server.view.Free b → (w.server.cache b).isNone
  | _ => False

instance (w : World) (op : Op) : Decidable (op.FirstWalk w) :=
  match op with
  | .openFile _ => inferInstanceAs (Decidable (∀ b < _, _ → _))
  | .remove _ | .getBlock _ _ | .setSize _ _ | .dirty _ _ | .flush _ | .close _ | .sync
  | .write _ _ _ => inferInstanceAs (Decidable False)

lemma Op.FirstWalk.harmless {w : World} {op : Op} (h : op.FirstWalk w) : op.Harmless w := by
  cases op with
  | openFile path =>
      refine .inr fun b hb hfree => ?_
      rw [Server.page, Option.isNone_iff_eq_none.mp (h b hb hfree), Option.getD_none]
  | _ => exact h.elim

/-- The file "a" of the disk is opened. -/
lemma reaches_oneFile : ∃ w : World, w.Reaches oneFileDisk Op.Harmless ∧
    w.opened = [.entry 3 0] := by
  have hrun : ((World.boot oneFileDisk).bind fun w =>
      [.openFile [0x61#8]].foldlM (World.next fun w op => op.FirstWalk w) w).any
        (fun w => decide (w.opened = [.entry 3 0])) = true := by
    decide +kernel
  obtain ⟨w, hw, htest⟩ := World.reaches_of_any _ _ hrun
  exact ⟨w, Reachable.mono hw fun _ _ _ hs => ⟨hs.1.harmless, hs.2⟩, decide_eq_true_iff.mp htest⟩

theorem blocks_owned_oneFile : ∃ w : World, w.Reaches oneFileDisk Op.Harmless ∧
    w.opened = [.entry 3 0] ∧ w.Owned ∧ ∀ op : Op, op.Valid w → op.Harmless w →
      ∀ p, op.run w.server = .panic p → p = .outOfMemory := by
  obtain ⟨w, hw, hopen⟩ := reaches_oneFile
  obtain ⟨hown, hpanic⟩ := blocks_owned wellFormed_oneFileDisk hw
  exact ⟨w, hw, hopen, hown, hpanic⟩

end MosRv.Fs
