import MosRv.Mmu

/-!
# What a disk block holds (`user/include/fs.h`)

A block is 1024 words, the first word at the lowest address; the bytes of a word are in
little-endian order, as on the machine.  A block is data of a file, an array of sixteen `struct
File`s (a block of a directory), an array of block numbers (an indirect block), a piece of the
bitmap, or the super block.

A `struct File *` of the server points into the cache of blocks, so it is a block number with the
index of the first word of the `struct File`: `FileRef`.  `FileRef.addr` is the pointer itself,
which the server stores in `f_dir`.
-/

namespace MosRv.Fs

abbrev Byte := BitVec 8

/-- The contents of a block. -/
abbrev Block := ℕ → Word

def BY2BLK : ℕ := 4096
def BIT2BLK : ℕ := 32768
def MAXNAMELEN : ℕ := 128
def NDIRECT : ℕ := 10
def NINDIRECT : ℕ := 1024
def FILE2BLK : ℕ := 16
def FTYPE_REG : Word := 0#32
def FTYPE_DIR : Word := 1#32
def FS_MAGIC : Word := 0x68286097#32
def DISKMAP : Word := 0x10000000#32

/-- `DISKMAX / BY2BLK`. -/
def MAXBLOCKS : ℕ := 0x40000

namespace Block

/-- A page as `sys_mem_alloc` gives it. -/
def zero : Block := fun _ => 0#32

/-- Byte `i` of the block. -/
def byte (blk : Block) (i : ℕ) : Byte := Bits.byte (blk (i / 4)) (i % 4)

/-- Store a byte. -/
def setByte (blk : Block) (i : ℕ) (v : Byte) : Block :=
  Function.update blk (i / 4) (Bits.setByte (blk (i / 4)) (i % 4) v)

/-- `strcmp` of the string at byte `i` with a string finds no difference. -/
def strEq (blk : Block) : ℕ → List Byte → Bool
  | i, [] => blk.byte i = 0#8
  | i, c :: name => blk.byte i = c ∧ blk.strEq (i + 1) name

/-- `strcpy` to byte `i`. -/
def strcpy (blk : Block) : ℕ → List Byte → Block
  | i, [] => blk.setByte i 0#8
  | i, c :: str => (blk.setByte i c).strcpy (i + 1) str

end Block

/-- A `struct File *`. -/
structure FileRef where
  block : ℕ
  word : ℕ
  deriving DecidableEq, Repr

namespace FileRef

/-- `&super->s_root`. -/
def root : FileRef := ⟨1, 2⟩

/-- Entry `j` of a block of a directory. -/
def entry (b j : ℕ) : FileRef := ⟨b, 64 * j⟩

/-- The pointer. -/
def addr (f : FileRef) : Word := DISKMAP + BitVec.ofNat 32 (4096 * f.block + 4 * f.word)

/-- The `struct File` that a pointer points to. -/
def ofAddr (a : Word) : FileRef := ⟨(a - DISKMAP).toNat / 4096, (a - DISKMAP).toNat % 4096 / 4⟩

end FileRef

/-! ## The words of a `struct File` and of the super block -/

/-- `f_name` starts at word 0 and is `MAXNAMELEN` bytes long. -/
def F_SIZE : ℕ := 32
def F_TYPE : ℕ := 33
def F_DIRECT : ℕ := 34
def F_INDIRECT : ℕ := 44
def F_DIR : ℕ := 45

def S_MAGIC : ℕ := 0
def S_NBLOCKS : ℕ := 1

end MosRv.Fs
