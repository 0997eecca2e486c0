import MosRv.Fs.Layout
import MosRv.Lib.Prog

/-!
# The file system (`fs/fs.c`)

The state of the server is the disk, the pages of the block cache that are mapped, and the two
pointers `super` and `bitmap`, which are null or point to blocks 1 and 2.  A block is mapped at
`DISKMAP + blockno * BY2BLK`, so the cache is indexed by block numbers.

`mem` are the answers to the requests for memory that the server will make, in order.  An access to
a page that is not mapped makes the kernel map a page of zeros (`touch`), or stops the machine when
there is none.

Errors are early exits (`FsErr`), which a caller that goes on after an error catches with `attempt`.
-/

namespace MosRv.Fs

open Prog

inductive FsErr
  | noDisk | noMem | notFound | badPath | inval | maxOpen | fileExists
  deriving DecidableEq, Repr

/-- How the server stops. -/
inductive Panic
  /-- "reading non-existent block". -/
  | nonExistent
  /-- "reading free block". -/
  | freeBlock
  /-- "write unmapped block". -/
  | writeUnmapped
  /-- "bad file system magic number". -/
  | badMagic
  /-- "file system is too large". -/
  | tooLarge
  /-- A `user_assert`. -/
  | assert
  /-- The kernel has no page for a fault. -/
  | outOfMemory
  deriving DecidableEq, Repr

structure Server where
  disk : ℕ → Block
  cache : ℕ → Option Block
  super : Bool
  bitmap : Bool
  mem : ℕ → Bool

abbrev FsM := Prog FsErr Panic Server

/-! ## Memory -/

/-- The next answer to a request for memory. -/
def nextMem : FsM Bool := do
  let s ← get
  set { s with mem := fun i => s.mem (i + 1) }
  pure (s.mem 0)

def setCache (b : ℕ) (blk : Option Block) : FsM Unit :=
  modify fun s => { s with cache := Function.update s.cache b blk }

/-- `syscall_mem_alloc(0, diskaddr(b), PTE_W)`. -/
def memAlloc (b : ℕ) : FsM Unit := do
  if ← nextMem then setCache b (some Block.zero) else exit .noMem

/-- An access to the page of block `b`. -/
def touch (b : ℕ) : FsM Unit := do
  let s ← get
  if (s.cache b).isSome then pure ()
  else do
    if ← nextMem then setCache b (some Block.zero) else panic .outOfMemory

/-- The page of block `b`. -/
def loadBlock (b : ℕ) : FsM Block := do
  touch b
  let s ← get
  pure ((s.cache b).getD Block.zero)

def storeBlock (b : ℕ) (blk : Block) : FsM Unit := do
  touch b
  setCache b (some blk)

def loadWord (b i : ℕ) : FsM Word := do
  let blk ← loadBlock b
  pure (blk i)

def storeWord (b i : ℕ) (w : Word) : FsM Unit := do
  let blk ← loadBlock b
  storeBlock b (Function.update blk i w)

/-- Stop unless `c`. -/
def require (c : Bool) (p : Panic) : FsM Unit := if c then pure () else panic p

def assert (c : Bool) : FsM Unit := require c .assert

/-! ## Blocks -/

def blockIsMapped (b : ℕ) : FsM Bool := do
  let s ← get
  pure (s.cache b).isSome

/-- Every mapped page is taken to be dirty (`va_is_dirty`). -/
def blockIsDirty (b : ℕ) : FsM Bool := blockIsMapped b

def dirtyBlock (b : ℕ) : FsM Unit := do
  if ← blockIsMapped b then pure () else exit .notFound

def writeBlock (b : ℕ) : FsM Unit := do
  if ← blockIsMapped b then do
    let blk ← loadBlock b
    modify fun s => { s with disk := Function.update s.disk b blk }
  else panic .writeUnmapped

/-- `super->s_nblocks`. -/
def nblocks : FsM ℕ := do
  let n ← loadWord 1 S_NBLOCKS
  pure n.toNat

/-- The word of the bitmap with the bit of block `b`. -/
def bitmapBlock (b : ℕ) : ℕ := 2 + b / BIT2BLK
def bitmapWord (b : ℕ) : ℕ := b % BIT2BLK / 32

def blockIsFree (b : ℕ) : FsM Bool := do
  let s ← get
  if s.super then do
    if (← nblocks) ≤ b then pure false
    else do
      let w ← loadWord (bitmapBlock b) (bitmapWord b)
      pure (w.getLsbD (b % 32))
  else pure false

/-- The block is on the disk: step 1 of `read_block`. -/
def checkExists (b : ℕ) : FsM Unit := do
  let s ← get
  if s.super then do
    let n ← nblocks
    require (b < n) .nonExistent
  else pure ()

/-- The block is in use: step 2 of `read_block`. -/
def checkUsed (b : ℕ) : FsM Unit := do
  let s ← get
  if s.bitmap then do
    let free ← blockIsFree b
    require (!free) .freeBlock
  else pure ()

/-- Make sure that a block is loaded; the result is `*isnew`. -/
def readBlock (b : ℕ) : FsM Bool := do
  checkExists b
  checkUsed b
  if ← blockIsMapped b then pure false
  else do
    -- the result of the allocation is not looked at; the copy then faults
    let _ ← attempt (memAlloc b)
    let s ← get
    storeBlock b (s.disk b)
    pure true

def mapBlock (b : ℕ) : FsM Unit := do
  if ← blockIsMapped b then pure () else memAlloc b

def freeBlock (b : ℕ) : FsM Unit := do
  if b = 0 then pure ()
  else do
    if (← nblocks) ≤ b then pure ()
    else do
      let w ← loadWord (bitmapBlock b) (bitmapWord b)
      storeWord (bitmapBlock b) (bitmapWord b) (w ||| 1#32 <<< (b % 32))

/-- The loop of `alloc_block_num`, with `n` blocks to go. -/
def allocFrom : (b n : ℕ) → FsM ℕ
  | _, 0 => exit .noDisk
  | b, n + 1 => do
      let w ← loadWord (bitmapBlock b) (bitmapWord b)
      if w.getLsbD (b % 32) then do
        storeWord (bitmapBlock b) (bitmapWord b) (w &&& ~~~(1#32 <<< (b % 32)))
        writeBlock (b / BIT2BLK + 2)
        pure b
      else allocFrom (b + 1) n

def allocBlockNum : FsM ℕ := do
  let n ← nblocks
  allocFrom 3 (n - 3)

def allocBlock : FsM ℕ := do
  let b ← allocBlockNum
  match ← attempt (mapBlock b) with
  | .ok _ => pure b
  | .error e => do
      freeBlock b
      exit e

/-! ## Starting the server -/

def readSuper : FsM Unit := do
  let _ ← readBlock 1
  modify fun s => { s with super := true }
  let magic ← loadWord 1 S_MAGIC
  require (magic = FS_MAGIC) .badMagic
  let n ← nblocks
  require (n ≤ MAXBLOCKS) .tooLarge

def readBitmap : FsM Unit := do
  let n ← nblocks
  let nbitmap := n / BIT2BLK + 1
  forRange (fun i => do let _ ← readBlock (i + 2)) 0 nbitmap
  modify fun s => { s with bitmap := true }
  assert !(← blockIsFree 0)
  assert !(← blockIsFree 1)
  forRange (fun i => do let free ← blockIsFree (i + 2); assert !free) 0 nbitmap

/-- "OOPS!\n". -/
def oops : List Byte := [0x4F#8, 0x4F#8, 0x50#8, 0x53#8, 0x21#8, 0x0A#8]

def checkWriteBlock : FsM Unit := do
  modify fun s => { s with super := false }
  -- back up the super block
  let _ ← readBlock 0
  storeBlock 0 (← loadBlock 1)
  -- smash it
  storeBlock 1 ((← loadBlock 1).strcpy 0 oops)
  writeBlock 1
  assert (← blockIsMapped 1)
  -- clear it out
  setCache 1 none
  assert !(← blockIsMapped 1)
  -- validate the data read from the disk
  let _ ← readBlock 1
  assert ((← loadBlock 1).strEq 0 oops)
  -- restore the super block
  storeBlock 1 (← loadBlock 0)
  writeBlock 1
  modify fun s => { s with super := true }

def fsInit : FsM Unit := do
  readSuper
  checkWriteBlock
  readBitmap

/-! ## Blocks of files -/

/-- Word `k` of the `struct File`. -/
def loadField (f : FileRef) (k : ℕ) : FsM Word := loadWord f.block (f.word + k)

def storeField (f : FileRef) (k : ℕ) (w : Word) : FsM Unit := storeWord f.block (f.word + k) w

/-- Allocate a block for an empty slot, if `alloc`. -/
def fillSlot (ptr : ℕ × ℕ) (alloc : Bool) : FsM Unit := do
  let b ← loadWord ptr.1 ptr.2
  if b = 0#32 then
    if alloc then do
      let r ← allocBlock
      storeWord ptr.1 ptr.2 (BitVec.ofNat 32 r)
    else exit .notFound
  else pure ()

/-- Find the slot for a block of the file: the block and the word that hold its number. -/
def fileBlockWalk (f : FileRef) (filebno : ℕ) (alloc : Bool) : FsM (ℕ × ℕ) := do
  if filebno < NDIRECT then pure (f.block, f.word + F_DIRECT + filebno)
  else if filebno < NINDIRECT then do
    fillSlot (f.block, f.word + F_INDIRECT) alloc
    let b ← loadField f F_INDIRECT
    let _ ← readBlock b.toNat
    pure (b.toNat, filebno)
  else exit .inval

def fileMapBlock (f : FileRef) (filebno : ℕ) (alloc : Bool) : FsM ℕ := do
  let ptr ← fileBlockWalk f filebno alloc
  fillSlot ptr alloc
  let b ← loadWord ptr.1 ptr.2
  pure b.toNat

/-- Free the block of a slot, if there is one, and empty the slot. -/
def clearSlot (ptr : ℕ × ℕ) : FsM Unit := do
  let b ← loadWord ptr.1 ptr.2
  if b = 0#32 then pure ()
  else do
    freeBlock b.toNat
    storeWord ptr.1 ptr.2 0#32

def fileClearBlock (f : FileRef) (filebno : ℕ) : FsM Unit := do
  let ptr ← fileBlockWalk f filebno false
  clearSlot ptr

/-- The result is the block whose page is `*blk`. -/
def fileGetBlock (f : FileRef) (filebno : ℕ) : FsM ℕ := do
  let b ← fileMapBlock f filebno true
  let _ ← readBlock b
  pure b

def fileDirty (f : FileRef) (offset : ℕ) : FsM Unit := do
  let b ← fileMapBlock f (offset / BY2BLK) false
  dirtyBlock b

/-! ## Directories and paths -/

/-- The first of the entries from `j` on, `n` of them, with the name. -/
def findEntry (blk : Block) (name : List Byte) : (j n : ℕ) → Option ℕ
  | _, 0 => none
  | j, n + 1 => if blk.strEq (256 * j) name then some j else findEntry blk name (j + 1) n

/-- The loop of `dir_lookup` from block `i` on, with `n` blocks to go. -/
def dirLookupFrom (dir : FileRef) (name : List Byte) : (i n : ℕ) → FsM FileRef
  | _, 0 => exit .notFound
  | i, n + 1 => do
      let b ← fileGetBlock dir i
      match findEntry (← loadBlock b) name 0 FILE2BLK with
      | some j => do
          storeField (.entry b j) F_DIR dir.addr
          pure (.entry b j)
      | none => dirLookupFrom dir name (i + 1) n

def dirLookup (dir : FileRef) (name : List Byte) : FsM FileRef := do
  let size ← loadField dir F_SIZE
  dirLookupFrom dir name 0 (size.toNat / BY2BLK)

/-- The first of the entries from `j` on, `n` of them, without a name. -/
def freeEntry (blk : Block) : (j n : ℕ) → Option ℕ
  | _, 0 => none
  | j, n + 1 => if blk.byte (256 * j) = 0#8 then some j else freeEntry blk (j + 1) n

/-- The loop of `dir_alloc_file` from block `i` on, with `n` blocks to go, and what comes after it.
-/
def dirAllocFrom (dir : FileRef) : (i n : ℕ) → FsM FileRef
  | i, 0 => do
      -- no free entry: the directory gets a block, and its size counts it at once
      let size ← loadField dir F_SIZE
      storeField dir F_SIZE (size + BitVec.ofNat 32 BY2BLK)
      let b ← fileGetBlock dir i
      pure (.entry b 0)
  | i, n + 1 => do
      let b ← fileGetBlock dir i
      match freeEntry (← loadBlock b) 0 FILE2BLK with
      | some j => pure (.entry b j)
      | none => dirAllocFrom dir (i + 1) n

def dirAllocFile (dir : FileRef) : FsM FileRef := do
  let size ← loadField dir F_SIZE
  dirAllocFrom dir 0 (size.toNat / BY2BLK)

/-- The character '/'. -/
def slash : Byte := 0x2F#8

def skipSlash (path : List Byte) : List Byte := path.dropWhile (· = slash)

/-- What `walk_path` returns and leaves behind its pointers. -/
structure Walk where
  err : Option FsErr
  dir : Option FileRef
  file : Option FileRef
  lastelem : Option (List Byte)

/-- The loop of `walk_path`.  Every round shortens the path, which is not longer than the first
argument. -/
def walkFrom : ℕ → List Byte → (dir : Option FileRef) → (file : FileRef) → FsM Walk
  | 0, _, dir, file => pure ⟨none, dir, some file, none⟩
  | n + 1, path, dir, file =>
      if path = [] then pure ⟨none, dir, some file, none⟩
      else do
        let name := path.takeWhile (· ≠ slash)
        let rest := skipSlash (path.dropWhile (· ≠ slash))
        if MAXNAMELEN ≤ name.length then pure ⟨some .badPath, none, none, none⟩
        else do
          if (← loadField file F_TYPE) ≠ FTYPE_DIR then pure ⟨some .notFound, none, none, none⟩
          else match ← attempt (dirLookup file name) with
            | .ok f => walkFrom n rest (some file) f
            | .error e =>
                if e = .notFound ∧ rest = [] then pure ⟨some e, some file, none, some name⟩
                else pure ⟨some e, none, none, none⟩

/-- Evaluate a path, given by the bytes before its end. -/
def walkPath (path : List Byte) : FsM Walk :=
  walkFrom (skipSlash path).length (skipSlash path) none .root

/-- `walk_path(path, 0, file, 0)`. -/
def fileOpen (path : List Byte) : FsM FileRef := do
  let w ← walkPath path
  match w.err, w.file with
  | some e, _ => exit e
  | none, some f => pure f
  | none, none => exit .notFound

/-- The rest of `file_create`: the name has not been found in the directory. -/
def createIn (dir : FileRef) (name : List Byte) : FsM FileRef := do
  match ← attempt (dirAllocFile dir) with
  | .error _ => exit .notFound  -- still the result of the walk
  | .ok f => do
      storeBlock f.block ((← loadBlock f.block).strcpy (4 * f.word) name)
      pure f

def fileCreate (path : List Byte) : FsM FileRef := do
  let w ← walkPath path
  match w.err, w.dir, w.lastelem with
  | none, _, _ => exit .fileExists
  | some .notFound, some dir, some name => createIn dir name
  | some r, _, _ => exit r

/-! ## Sizes, flushing and removal -/

/-- `file_clear_block` of the blocks from `new` up to `old`; errors are ignored. -/
def clearBlocks (f : FileRef) (new old : ℕ) : FsM Unit :=
  forRange (fun bno => do let _ ← attempt (fileClearBlock f bno)) new (old - new)

/-- The number of blocks that `file_truncate` keeps for a size. -/
def newNblocks (newsize : Word) : ℕ :=
  if newsize = 0#32 then 0 else newsize.toNat / BY2BLK + 1

def fileTruncate (f : FileRef) (newsize : Word) : FsM Unit := do
  let size ← loadField f F_SIZE
  -- both branches of the source clear the blocks; one of them also the indirect block
  clearBlocks f (newNblocks newsize) (size.toNat / BY2BLK + 1)
  (if newNblocks newsize ≤ NDIRECT then clearSlot (f.block, f.word + F_INDIRECT) else pure ())
  storeField f F_SIZE newsize

def writeIfDirty (b : ℕ) : FsM Unit := do
  if ← blockIsDirty b then writeBlock b else pure ()

/-- One round of `file_flush`. -/
def flushBlock (f : FileRef) (bno : ℕ) : FsM Unit := do
  match ← attempt (fileMapBlock f bno false) with
  | .error _ => pure ()
  | .ok b => writeIfDirty b

def fileFlush (f : FileRef) : FsM Unit := do
  let size ← loadField f F_SIZE
  forRange (flushBlock f) 0 (size.toNat / BY2BLK + 1)

/-- `file_flush(f->f_dir)`, if there is one. -/
def flushDir (f : FileRef) : FsM Unit := do
  let dir ← loadField f F_DIR
  if dir = 0#32 then pure () else fileFlush (.ofAddr dir)

def fileSetSize (f : FileRef) (newsize : Word) : FsM Unit := do
  let size ← loadField f F_SIZE
  (if newsize.toNat < size.toNat then fileTruncate f newsize else pure ())
  storeField f F_SIZE newsize
  flushDir f

def fsSync : FsM Unit := do
  let n ← nblocks
  forRange writeIfDirty 0 n

def fileClose (f : FileRef) : FsM Unit := do
  fileFlush f
  flushDir f

def fileRemove (path : List Byte) : FsM Unit := do
  let f ← fileOpen path
  fileTruncate f 0#32
  storeBlock f.block ((← loadBlock f.block).setByte (4 * f.word) 0#8)
  fileFlush f
  flushDir f

end MosRv.Fs
