import MosRv.Fs.Server

/-!
# Running out of memory

The server asks the kernel for pages, with `syscall_mem_alloc` or by touching a page that is not
mapped.  As long as no request is refused it never stops for want of memory, whatever it does: this
is `Answered`, for each function of `fs.c` from those that it calls.  So where the only panic of a
function is the one for want of memory, a request has been refused (`Answered.outOfMemory`).
-/

namespace MosRv.Fs

open Prog

/-- There is all the memory that the server will ask for. -/
def Server.Plenty (s : Server) : Prop := ∀ i, s.mem i = true

/-- There is no page for a fault, and a request has been refused. -/
def Server.OutOfMemory (s : Server) (p : Panic) : Prop := p = .outOfMemory ∧ ¬ s.Plenty

/-- The only panic: a page fault without memory. -/
def Panic.Memory (p : Panic) : Prop := p = .outOfMemory

/-- With plenty of memory the function does not run out of it, and there is plenty left. -/
abbrev Answered {α : Type} (x : FsM α) : Prop := Maintains Server.Plenty (¬ Panic.Memory ·) x

section

variable {α : Type} {x : FsM α} {s : Server} {Q : α → Server → Prop} {E : FsErr → Server → Prop}

/-- A function that panics only for want of memory has been refused a page. -/
lemma Answered.outOfMemory (hx : Answered x) (h : wp x s Q E Panic.Memory) :
    wp x s Q E s.OutOfMemory := by
  by_cases hs : s.Plenty
  · exact (h.and (hx.wp_of hs)).mono (fun _ _ h => h.1) (fun _ _ h => h.1)
      fun _ hp => absurd hp.1 hp.2
  · exact h.mono (fun _ _ h => h) (fun _ _ h => h) fun _ hp => ⟨hp, hs⟩

/-- With plenty of memory, a function that only runs out of it returns. -/
lemma Server.Plenty.exists_ok (hs : s.Plenty)
    (h : wp x s Q (fun _ _ => False) s.OutOfMemory) : ∃ a s', x s = .ok a s' ∧ Q a s' :=
  have hno : wp x s Q (fun _ _ => False) (fun _ => False) :=
    h.mono (fun _ _ h => h) (fun _ _ h => h) fun _ hp => hp.2 hs
  hno.exists_ok

end

/-! ## Blocks -/

lemma answered_setCache (b : ℕ) (blk : Option Block) : Answered (setCache b blk) :=
  .modify fun _ h => h

/-- A request is granted. -/
lemma Server.Plenty.wp_nextMem {s : Server} (h : s.Plenty) {E : FsErr → Server → Prop}
    {P : Panic → Prop} : wp nextMem s (fun b s' => b = true ∧ s'.Plenty) E P :=
  ⟨h 0, fun i => h (i + 1)⟩

lemma answered_memAlloc (b : ℕ) : Answered (memAlloc b) := by
  refine ⟨fun h => ?_⟩
  rw [memAlloc, wp_bind]
  refine h.wp_nextMem.mono ?_ (fun _ _ he => he) fun _ hp => hp
  rintro _ s' ⟨rfl, h'⟩
  rw [if_pos rfl]
  exact (answered_setCache _ _).wp_of h'

lemma answered_touch (b : ℕ) : Answered (touch b) := by
  refine ⟨fun {s} h => ?_⟩
  rw [touch, wp_bind, wp_get, wp_ite]
  refine ⟨fun _ => h, fun _ => ?_⟩
  rw [wp_bind]
  refine h.wp_nextMem.mono ?_ (fun _ _ he => he) fun _ hp => hp
  rintro _ s' ⟨rfl, h'⟩
  rw [if_pos rfl]
  exact (answered_setCache _ _).wp_of h'

lemma answered_loadBlock (b : ℕ) : Answered (loadBlock b) :=
  .bind (answered_touch b) fun _ => .bind .get fun _ => .pure _

lemma answered_storeBlock (b : ℕ) (blk : Block) : Answered (storeBlock b blk) :=
  .bind (answered_touch b) fun _ => answered_setCache _ _

lemma answered_loadWord (b i : ℕ) : Answered (loadWord b i) :=
  .bind (answered_loadBlock b) fun _ => .pure _

lemma answered_storeWord (b i : ℕ) (w : Word) : Answered (storeWord b i w) :=
  .bind (answered_loadBlock b) fun _ => answered_storeBlock _ _

lemma answered_require (c : Bool) {p : Panic} (hp : ¬ p.Memory) : Answered (require c p) :=
  .ite (.pure _) (.panic hp)

lemma answered_assert (c : Bool) : Answered (assert c) := answered_require c nofun

lemma answered_blockIsMapped (b : ℕ) : Answered (blockIsMapped b) := .bind .get fun _ => .pure _

lemma answered_writeBlock (b : ℕ) : Answered (writeBlock b) :=
  .bind (answered_blockIsMapped b) fun _ =>
    .ite (.bind (answered_loadBlock b) fun _ => .modify fun _ h => h) (.panic nofun)

lemma answered_nblocks : Answered nblocks := .bind (answered_loadWord _ _) fun _ => .pure _

lemma answered_blockIsFree (b : ℕ) : Answered (blockIsFree b) :=
  .bind .get fun _ => .ite
    (.bind answered_nblocks fun _ => .ite (.pure _)
      (.bind (answered_loadWord _ _) fun _ => .pure _))
    (.pure _)

lemma answered_checkExists (b : ℕ) : Answered (checkExists b) :=
  .bind .get fun _ => .ite (.bind answered_nblocks fun _ => answered_require _ nofun) (.pure _)

lemma answered_checkUsed (b : ℕ) : Answered (checkUsed b) :=
  .bind .get fun _ => .ite (.bind (answered_blockIsFree b) fun _ =>
    answered_require _ nofun) (.pure _)

lemma answered_readBlock (b : ℕ) : Answered (readBlock b) :=
  .bind (answered_checkExists b) fun _ => .bind (answered_checkUsed b) fun _ =>
    .bind (answered_blockIsMapped b) fun _ => .ite (.pure _)
      (.bind (.attempt (answered_memAlloc b)) fun _ => .bind .get fun _ =>
        .bind (answered_storeBlock b _) fun _ => .pure _)

lemma answered_mapBlock (b : ℕ) : Answered (mapBlock b) :=
  .bind (answered_blockIsMapped b) fun _ => .ite (.pure _) (answered_memAlloc b)

lemma answered_freeBlock (b : ℕ) : Answered (freeBlock b) :=
  .ite (.pure _) (.bind answered_nblocks fun _ => .ite (.pure _)
    (.bind (answered_loadWord _ _) fun _ => answered_storeWord _ _ _))

lemma answered_allocFrom (b n : ℕ) : Answered (allocFrom b n) := by
  induction n generalizing b with
  | zero => exact .exit _
  | succ n ih =>
      exact .bind (answered_loadWord _ _) fun _ => .ite
        (.bind (answered_storeWord _ _ _) fun _ => .bind (answered_writeBlock _) fun _ => .pure _)
        (ih (b + 1))

lemma answered_allocBlock : Answered allocBlock := by
  refine .bind (.bind answered_nblocks fun _ => answered_allocFrom _ _) fun b =>
    .bind (.attempt (answered_mapBlock b)) fun r => ?_
  cases r with
  | ok _ => exact .pure _
  | error e => exact .bind (answered_freeBlock b) fun _ => .exit e

/-! ## Starting the server -/

lemma answered_readSuper : Answered readSuper :=
  .bind (answered_readBlock 1) fun _ => .bind (.modify fun _ h => h) fun _ =>
    .bind (answered_loadWord _ _) fun _ => .bind (answered_require _ nofun) fun _ =>
      .bind answered_nblocks fun _ => answered_require _ nofun

lemma answered_readBitmap : Answered readBitmap :=
  .bind answered_nblocks fun _ =>
    .bind (.forRange (fun _ => .bind (answered_readBlock _) fun _ => .pure _) _ _) fun _ =>
      .bind (.modify fun _ h => h) fun _ => .bind (answered_blockIsFree _) fun _ =>
        .bind (answered_assert _) fun _ => .bind (answered_blockIsFree _) fun _ =>
          .bind (answered_assert _) fun _ =>
            .forRange (fun _ => .bind (answered_blockIsFree _) fun _ => answered_assert _) _ _

lemma answered_checkWriteBlock : Answered checkWriteBlock :=
  .bind (.modify fun _ h => h) fun _ => .bind (answered_readBlock 0) fun _ =>
    .bind (answered_loadBlock 1) fun _ => .bind (answered_storeBlock 0 _) fun _ =>
      .bind (answered_loadBlock 1) fun _ => .bind (answered_storeBlock 1 _) fun _ =>
        .bind (answered_writeBlock 1) fun _ => .bind (answered_blockIsMapped 1) fun _ =>
          .bind (answered_assert _) fun _ => .bind (answered_setCache 1 none) fun _ =>
            .bind (answered_blockIsMapped 1) fun _ => .bind (answered_assert _) fun _ =>
              .bind (answered_readBlock 1) fun _ => .bind (answered_loadBlock 1) fun _ =>
                .bind (answered_assert _) fun _ => .bind (answered_loadBlock 0) fun _ =>
                  .bind (answered_storeBlock 1 _) fun _ => .bind (answered_writeBlock 1) fun _ =>
                    .modify fun _ h => h

lemma answered_fsInit : Answered fsInit :=
  .bind answered_readSuper fun _ => .bind answered_checkWriteBlock fun _ => answered_readBitmap

/-! ## Files -/

lemma answered_fillSlot (ptr : ℕ × ℕ) (alloc : Bool) : Answered (fillSlot ptr alloc) :=
  .bind (answered_loadWord _ _) fun _ => .ite
    (.ite (.bind answered_allocBlock fun _ => answered_storeWord _ _ _) (.exit _)) (.pure _)

lemma answered_fileBlockWalk (f : FileRef) (n : ℕ) (alloc : Bool) :
    Answered (fileBlockWalk f n alloc) :=
  .ite (.pure _) (.ite (.bind (answered_fillSlot _ _) fun _ =>
    .bind (answered_loadWord _ _) fun _ =>
    .bind (answered_readBlock _) fun _ => .pure _) (.exit _))

lemma answered_fileMapBlock (f : FileRef) (n : ℕ) (alloc : Bool) :
    Answered (fileMapBlock f n alloc) :=
  .bind (answered_fileBlockWalk f n alloc) fun _ => .bind (answered_fillSlot _ _) fun _ =>
    .bind (answered_loadWord _ _) fun _ => .pure _

lemma answered_clearSlot (ptr : ℕ × ℕ) : Answered (clearSlot ptr) :=
  .bind (answered_loadWord _ _) fun _ => .ite (.pure _)
    (.bind (answered_freeBlock _) fun _ => answered_storeWord _ _ _)

lemma answered_fileClearBlock (f : FileRef) (n : ℕ) : Answered (fileClearBlock f n) :=
  .bind (answered_fileBlockWalk f n false) fun _ => answered_clearSlot _

lemma answered_fileGetBlock (f : FileRef) (n : ℕ) : Answered (fileGetBlock f n) :=
  .bind (answered_fileMapBlock f n true) fun _ => .bind (answered_readBlock _) fun _ => .pure _

lemma answered_dirLookup (dir : FileRef) (name : List Byte) : Answered (dirLookup dir name) := by
  have hfrom : ∀ n i, Answered (dirLookupFrom dir name i n) := by
    intro n
    induction n with
    | zero => exact fun _ => .exit _
    | succ n ih =>
        intro i
        refine .bind (answered_fileGetBlock dir i) fun b =>
          .bind (answered_loadBlock b) fun blk => ?_
        cases findEntry blk name 0 FILE2BLK with
        | some j => exact .bind (answered_storeWord _ _ _) fun _ => .pure _
        | none => exact ih (i + 1)
  exact .bind (answered_loadWord _ _) fun _ => hfrom _ _

lemma answered_dirAllocFile (dir : FileRef) : Answered (dirAllocFile dir) := by
  have hfrom : ∀ n i, Answered (dirAllocFrom dir i n) := by
    intro n
    induction n with
    | zero =>
        exact fun i => .bind (answered_loadWord _ _) fun _ => .bind (answered_storeWord _ _ _)
          fun _ => .bind (answered_fileGetBlock dir i) fun _ => .pure _
    | succ n ih =>
        intro i
        refine .bind (answered_fileGetBlock dir i) fun b =>
          .bind (answered_loadBlock b) fun blk => ?_
        cases freeEntry blk 0 FILE2BLK with
        | some j => exact .pure _
        | none => exact ih (i + 1)
  exact .bind (answered_loadWord _ _) fun _ => hfrom _ _

lemma answered_walkPath (path : List Byte) : Answered (walkPath path) := by
  have hfrom : ∀ n path dir file, Answered (walkFrom n path dir file) := by
    intro n
    induction n with
    | zero => exact fun _ _ _ => .pure _
    | succ n ih =>
        intro path dir file
        refine .ite (.pure _) (.ite (.pure _) (.bind (answered_loadWord _ _) fun _ =>
          .ite (.pure _) (.bind (.attempt (answered_dirLookup _ _)) fun r => ?_)))
        cases r with
        | ok f => exact ih _ _ f
        | error e => exact .ite (.pure _) (.pure _)
  exact hfrom _ _ _ _

lemma answered_fileOpen (path : List Byte) : Answered (fileOpen path) := by
  refine .bind (answered_walkPath path) fun ⟨err, dir, file, elem⟩ => ?_
  cases err with
  | some e => exact .exit e
  | none =>
      cases file with
      | some f => exact .pure f
      | none => exact .exit _

lemma answered_createIn (dir : FileRef) (name : List Byte) : Answered (createIn dir name) := by
  refine .bind (.attempt (answered_dirAllocFile dir)) fun r => ?_
  cases r with
  | ok f =>
      exact .bind (answered_loadBlock _) fun _ => .bind (answered_storeBlock _ _) fun _ => .pure _
  | error e => exact .exit _

lemma answered_fileCreate (path : List Byte) : Answered (fileCreate path) := by
  refine .bind (answered_walkPath path) fun ⟨err, dir, file, elem⟩ => ?_
  cases err with
  | none => exact .exit _
  | some e =>
      cases dir with
      | none => cases e <;> exact .exit _
      | some d =>
          cases elem with
          | none => cases e <;> exact .exit _
          | some name =>
              cases e with
              | notFound => exact answered_createIn d name
              | _ => exact .exit _

lemma answered_fileTruncate (f : FileRef) (newsize : Word) : Answered (fileTruncate f newsize) :=
  .bind (answered_loadWord _ _) fun _ =>
    .bind (.forRange (fun _ => .bind (.attempt (answered_fileClearBlock f _)) fun _ => .pure _) _ _)
      fun _ => .bind (.ite (answered_clearSlot _) (.pure _)) fun _ => answered_storeWord _ _ _

lemma answered_writeIfDirty (b : ℕ) : Answered (writeIfDirty b) :=
  .bind (answered_blockIsMapped b) fun _ => .ite (answered_writeBlock b) (.pure _)

lemma answered_fileFlush (f : FileRef) : Answered (fileFlush f) := by
  refine .bind (answered_loadWord _ _) fun _ => .forRange (fun n => ?_) _ _
  refine .bind (.attempt (answered_fileMapBlock f n false)) fun r => ?_
  cases r with
  | ok b => exact answered_writeIfDirty b
  | error e => exact .pure _

lemma answered_flushDir (f : FileRef) : Answered (flushDir f) :=
  .bind (answered_loadWord _ _) fun _ => .ite (.pure _) (answered_fileFlush _)

lemma answered_fileRemove (path : List Byte) : Answered (fileRemove path) :=
  .bind (answered_fileOpen path) fun f => .bind (answered_fileTruncate f _) fun _ =>
    .bind (answered_loadBlock _) fun _ => .bind (answered_storeBlock _ _) fun _ =>
      .bind (answered_fileFlush f) fun _ => answered_flushDir f

/-! ## What returns no error -/

section

variable {C : FsErr → Prop}

lemma exits_touch (b : ℕ) : Exits C (touch b) :=
  .bind .get fun _ => .ite (.pure _) (.bind (.bind .get fun _ => .bind (.set _) fun _ => .pure _)
    fun _ => .ite (.modify _) (.panic _))

lemma exits_loadBlock (b : ℕ) : Exits C (loadBlock b) :=
  .bind (exits_touch b) fun _ => .bind .get fun _ => .pure _

lemma exits_storeBlock (b : ℕ) (blk : Block) : Exits C (storeBlock b blk) :=
  .bind (exits_touch b) fun _ => .modify _

lemma exits_loadWord (b i : ℕ) : Exits C (loadWord b i) :=
  .bind (exits_loadBlock b) fun _ => .pure _

lemma exits_storeWord (b i : ℕ) (w : Word) : Exits C (storeWord b i w) :=
  .bind (exits_loadBlock b) fun _ => exits_storeBlock _ _

lemma exits_nblocks : Exits C nblocks := .bind (exits_loadWord _ _) fun _ => .pure _

lemma exits_require (c : Bool) (p : Panic) : Exits C (require c p) := .ite (.pure _) (.panic _)

/-- A refused page is not reported by `read_block`. -/
lemma exits_readBlock (b : ℕ) : Exits C (readBlock b) := by
  have hexists : Exits C (checkExists b) :=
    .bind .get fun _ => .ite (.bind exits_nblocks fun _ => exits_require _ _) (.pure _)
  have hfree : Exits C (blockIsFree b) := .bind .get fun _ => .ite (.bind exits_nblocks fun _ =>
    .ite (.pure _) (.bind (exits_loadWord _ _) fun _ => .pure _)) (.pure _)
  have hused : Exits C (checkUsed b) :=
    .bind .get fun _ => .ite (.bind hfree fun _ => exits_require _ _) (.pure _)
  have hmapped : Exits C (blockIsMapped b) := .bind .get fun _ => .pure _
  exact .bind hexists fun _ => .bind hused fun _ => .bind hmapped fun _ => .ite (.pure _)
    (.bind (.attempt _) fun _ => .bind .get fun _ => .bind (exits_storeBlock b _) fun _ => .pure _)

end

end MosRv.Fs
