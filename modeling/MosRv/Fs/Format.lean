import MosRv.Fs.Init

/-!
# The disk image (`tools/fsformat.c`)

`fsformat` runs on the host.  It lays files and directories of the host out on an empty disk, which
the file system server is started on later.  Blocks are handed out in order, by the counter
`nextbno`, and are never given back; so the bitmap is only written at the end.

`Entries` is what a directory of the host holds, in the order in which `readdir` returns it, without
`.` and `..`; a file there is a name and the bytes that reading it gives.  The arguments of the
program are `Arg`s, with paths in place of names.

The array `disk` is static, so it is zero at first.  The super block is a variable of its own until
`finish_fs` copies it to block 1, which nothing else writes to; here it is in block 1 all along.
The types of the blocks are left out, which only matter on a host of the other endianness.  To hand
out a block behind the end of `disk` is an error of the program that C says nothing about; here it
is the failure `outOfDisk`.
-/

namespace MosRv.Fs

/-- A directory of the host. -/
inductive Entries
  | nil
  | file (name data : List Byte) (rest : Entries)
  | dir (name : List Byte) (inner rest : Entries)
  deriving DecidableEq, Repr

namespace Block

/-- `memset` of `n` bytes from byte `i` on. -/
def memset (blk : Block) (c : Byte) : (i n : ℕ) → Block
  | _, 0 => blk
  | i, n + 1 => (blk.setByte i c).memset c (i + 1) n

/-- `memcpy` to byte `i`. -/
def memcpy (blk : Block) : ℕ → List Byte → Block
  | _, [] => blk
  | i, c :: data => (blk.setByte i c).memcpy (i + 1) data

/-- `strncpy` of `n` bytes to byte `i`: after the end of the string come zeros. -/
def strncpy (blk : Block) : (i : ℕ) → List Byte → (n : ℕ) → Block
  | _, _, 0 => blk
  | i, [], n + 1 => (blk.setByte i 0#8).strncpy (i + 1) [] n
  | i, c :: str, n + 1 => (blk.setByte i c).strncpy (i + 1) str n

end Block

namespace Format

open Prog

/-- What `stat` says about an argument of the program. -/
inductive Arg
  /-- There is no such file. -/
  | missing
  /-- It is neither a directory nor a regular file. -/
  | other
  | file (path data : List Byte)
  | dir (path : List Byte) (inner : Entries)
  deriving DecidableEq, Repr

def NBLOCK : ℕ := 1024

/-- The number of blocks of the bitmap. -/
def nbitblock : ℕ := (NBLOCK + BIT2BLK - 1) / BIT2BLK

structure Img where
  disk : View
  nextbno : ℕ

/-- The variables of the program before `main`. -/
def Img.blank : Img := ⟨fun _ => Block.zero, 0⟩

inductive Failure
  /-- An `assert`. -/
  | assert
  /-- The program uses a block behind the end of `disk`. -/
  | outOfDisk
  deriving DecidableEq, Repr

/-- The early exits are calls of `exit`. -/
abbrev FormatM := Prog ℕ Failure Img

/-! ## Paths -/

/-- What follows the last slash, or all of the path: `strrchr(path, '/')`. -/
def lastName (path : List Byte) : List Byte := (path.reverse.takeWhile (· ≠ slash)).reverse

/-- The path without slashes at its end. -/
def trimSlashes (path : List Byte) : List Byte := (path.reverse.dropWhile (· = slash)).reverse

/-- `basename`, with what it leaves of the path: it cuts slashes off its end. -/
def basename (path : List Byte) : List Byte × List Byte :=
  if path = [] then ([0x2e#8], path)
  else if trimSlashes path = [] then ([slash], path)
  else (lastName (trimSlashes path), trimSlashes path)

/-! ## Memory -/

def assert (c : Bool) : FormatM Unit := if c then pure () else panic .assert

def loadWord (b i : ℕ) : FormatM Word := do
  let s ← get
  pure (s.disk b i)

def storeWord (b i : ℕ) (w : Word) : FormatM Unit :=
  modify fun s => { s with disk := s.disk.store b i w }

/-- The contents of a block are changed. -/
def changeBlock (b : ℕ) (change : Block → Block) : FormatM Unit :=
  modify fun s => { s with disk := Function.update s.disk b (change (s.disk b)) }

/-! ## Blocks -/

def initDisk : FormatM Unit := do
  modify fun s => { s with nextbno := 2 + nbitblock }
  forRange (fun i => changeBlock (2 + i) fun blk => blk.memset 0xff#8 0 BY2BLK) 0 nbitblock
  if NBLOCK ≠ nbitblock * BIT2BLK then
    let diff := NBLOCK % BIT2BLK / 8
    changeBlock (2 + (nbitblock - 1)) fun blk => blk.memset 0x00#8 diff (BY2BLK - diff)
  else pure ()
  storeWord 1 S_MAGIC FS_MAGIC
  storeWord 1 S_NBLOCKS (BitVec.ofNat 32 NBLOCK)
  storeWord FileRef.root.block (FileRef.root.word + F_TYPE) FTYPE_DIR
  changeBlock FileRef.root.block fun blk => blk.strcpy (4 * FileRef.root.word) [slash]

def nextBlock : FormatM ℕ := do
  let s ← get
  if s.nextbno < NBLOCK then do
    set { s with nextbno := s.nextbno + 1 }
    pure s.nextbno
  else panic .outOfDisk

def flushBitmap : FormatM Unit := do
  let s ← get
  forRange (fun i => do
    let w ← loadWord (2 + i / BIT2BLK) (i % BIT2BLK / 32)
    storeWord (2 + i / BIT2BLK) (i % BIT2BLK / 32) (w &&& ~~~(1#32 <<< (i % 32)))) 0 s.nextbno

/-- The image that is written. -/
def finishFs : FormatM View := do
  let s ← get
  pure s.disk

def saveBlockLink (f : FileRef) (nblk bno : ℕ) : FormatM Unit := do
  assert (nblk < NINDIRECT)
  if nblk < NDIRECT then storeWord f.block (f.word + F_DIRECT + nblk) (BitVec.ofNat 32 bno)
  else do
    let indirect ← loadWord f.block (f.word + F_INDIRECT)
    if indirect = 0#32 then do
      let b ← nextBlock
      storeWord f.block (f.word + F_INDIRECT) (BitVec.ofNat 32 b)
    else pure ()
    let indirect ← loadWord f.block (f.word + F_INDIRECT)
    storeWord indirect.toNat nblk (BitVec.ofNat 32 bno)

def makeLinkBlock (dirf : FileRef) (nblk : ℕ) : FormatM ℕ := do
  let bno ← nextBlock
  saveBlockLink dirf nblk bno
  let size ← loadWord dirf.block (dirf.word + F_SIZE)
  storeWord dirf.block (dirf.word + F_SIZE) (size + BitVec.ofNat 32 BY2BLK)
  pure bno

/-! ## Files and directories -/

/-- The first of the entries `j`, …, `j + n - 1` of a block that has no name. -/
def unusedIn (blk : Block) : (j n : ℕ) → Option ℕ
  | _, 0 => none
  | j, n + 1 => if blk.byte (256 * j) = 0#8 then some j else unusedIn blk (j + 1) n

/-- The first entry without a name in the blocks `i`, …, `i + n - 1` of a directory. -/
def unusedFrom (disk : View) (dirf : FileRef) : (i n : ℕ) → Option FileRef
  | _, 0 => none
  | i, n + 1 =>
      let bno :=
        if i < NDIRECT then (disk dirf.block (dirf.word + F_DIRECT + i)).toNat
        else (disk (disk dirf.block (dirf.word + F_INDIRECT)).toNat i).toNat
      match unusedIn (disk bno) 0 FILE2BLK with
      | some j => some (.entry bno j)
      | none => unusedFrom disk dirf (i + 1) n

def createFile (dirf : FileRef) : FormatM FileRef := do
  let size ← loadWord dirf.block (dirf.word + F_SIZE)
  let nblk := size.toNat / BY2BLK
  let s ← get
  match unusedFrom s.disk dirf 0 nblk with
  | some f => pure f
  | none => do
      let bno ← makeLinkBlock dirf nblk
      pure (.entry bno 0)

/-- `read` into the block that is handed out next. -/
def readNext (chunk : List Byte) : FormatM Unit := do
  let s ← get
  if s.nextbno < NBLOCK then changeBlock s.nextbno fun blk => blk.memcpy 0 chunk
  else panic .outOfDisk

/-- The bytes are read in pieces of a block; the last piece can be shorter. -/
def writeFile (dirf : FileRef) (path data : List Byte) : FormatM Unit := do
  let target ← createFile dirf
  changeBlock target.block fun blk => blk.strcpy (4 * target.word) (lastName path)
  storeWord target.block (target.word + F_SIZE) (BitVec.ofNat 32 data.length)
  storeWord target.block (target.word + F_TYPE) FTYPE_REG
  forRange (fun iblk => do
    readNext ((data.drop (BY2BLK * iblk)).take BY2BLK)
    let bno ← nextBlock
    saveBlockLink target iblk bno) 0 ((data.length + BY2BLK - 1) / BY2BLK)

/-- `write_directory` up to its loop: the directory, and the path that is left. -/
def makeDirectory (dirf : FileRef) (path : List Byte) : FormatM (FileRef × List Byte) := do
  let pdir ← createFile dirf
  changeBlock pdir.block fun blk =>
    blk.strncpy (4 * pdir.word) (basename path).1 (MAXNAMELEN - 1)
  let s ← get
  if (s.disk pdir.block).byte (4 * pdir.word + (MAXNAMELEN - 1)) ≠ 0#8 then exit 1 else pure ()
  storeWord pdir.block (pdir.word + F_TYPE) FTYPE_DIR
  pure (pdir, (basename path).2)

/-- The loop of `write_directory` over the entries of the host's directory. -/
def writeEntries (pdir : FileRef) (path : List Byte) : Entries → FormatM Unit
  | .nil => pure ()
  | .file name data rest => do
      writeFile pdir (path ++ slash :: name) data
      writeEntries pdir path rest
  | .dir name inner rest => do
      let (sub, subpath) ← makeDirectory pdir (path ++ slash :: name)
      writeEntries sub subpath inner
      writeEntries pdir path rest

def writeDirectory (dirf : FileRef) (path : List Byte) (inner : Entries) : FormatM Unit := do
  let (pdir, path) ← makeDirectory dirf path
  writeEntries pdir path inner

/-- The loop of `main` over its arguments. -/
def writeArgs : List Arg → FormatM Unit
  | [] => pure ()
  | arg :: args => do
      match arg with
      | .missing => panic .assert
      | .other => exit 2
      | .file path data => writeFile .root path data
      | .dir path inner => writeDirectory .root path inner
      writeArgs args

/-- `main`, with the arguments behind the name of the image. -/
def main (args : List Arg) : FormatM View := do
  initDisk
  if args = [] then exit 1 else pure ()
  writeArgs args
  flushBitmap
  finishFs

end Format

end MosRv.Fs
