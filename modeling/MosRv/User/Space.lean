import MosRv.Lib.RefGraph
import MosRv.Pmap
import MosRv.Syscall

/-!
# Address spaces as the user library sees them

User code sees an environment's memory through its mappings below `UTOP` (the `vpt` window), changes
them with `syscall_mem_map` and `syscall_mem_unmap`, and reads reference counts with `pageref`
(`user/lib/pageref.c`).  `Spaces` are the mappings of all environments: by slot of `envs[]` and
virtual page number, the physical page and the ten flag bits.

`Spaces.memMap` and `Spaces.memUnmap` are the effects of the calls on the mappings; that the
kernel's `page_insert` and `page_remove` change the entry of that page and nothing else is
`page_table_refines_map`.  `pp_ref` is the number of mappings modulo `2 ^ 16`.

The second part is the layout of file descriptors (`user/include/fd.h`): descriptor `i` has its
`struct Fd` page in the table at `FDTABLE` and its data window of 4 MiB above `FILEBASE`.
-/

namespace MosRv

open RefGraph

/-! ## Mappings -/

/-- An entry of a page table: a page and flag bits. -/
structure Mapping where
  page : ℕ
  perm : Word
  deriving DecidableEq, Repr

/-- The mappings of all environments. -/
abbrev Spaces := ℕ × ℕ → Option Mapping

/-- The number of a virtual page. -/
def pn (va : Word) : ℕ := (VPN va).toNat

namespace Spaces

variable (S : Spaces)

/-- The entries that there can be. -/
def slots : Finset (ℕ × ℕ) := Finset.range NENV ×ˢ Finset.range (2 ^ 20)

lemma mem_slots {s : ℕ × ℕ} : s ∈ slots ↔ s.1 < NENV ∧ s.2 < 2 ^ 20 := by
  rw [slots, Finset.mem_product, Finset.mem_range, Finset.mem_range]

attribute [irreducible] slots

def target (s : ℕ × ℕ) : Option ℕ := (S s).map Mapping.page

/-- The number of mappings of a page. -/
def refs (page : ℕ) : ℕ := RefGraph.refs slots S.target page

/-- `pageref` in environment `e`. -/
def pageref (e : ℕ) (va : Word) : BitVec 16 :=
  match S (e, pn va) with
  | none => 0
  | some m => BitVec.ofNat 16 (S.refs m.page)

/-- What `sys_mem_map` does to the mappings, when there is memory for a page table. -/
def memMap (src : ℕ) (srcva : Word) (dst : ℕ) (dstva perm : Word) : Option Spaces :=
  if isIllegalVa srcva ∨ isIllegalVa dstva then none
  else (S (src, pn srcva)).map fun m =>
    Function.update S (dst, pn dstva) (some ⟨m.page, pteBits (entryFlags (perm ||| PTE_U))⟩)

/-- What `sys_mem_alloc` does to the mappings, when `page` is the page that is allocated. -/
def memAlloc (e : ℕ) (va : Word) (page : ℕ) (perm : Word) : Spaces :=
  if isIllegalVa va then S
  else Function.update S (e, pn va) (some ⟨page, pteBits (entryFlags (perm ||| PTE_U))⟩)

/-- What `sys_mem_unmap` does to the mappings. -/
def memUnmap (e : ℕ) (va : Word) : Spaces :=
  if isIllegalVa va then S else Function.update S (e, pn va) none

/-- What `env_free` does to the mappings. -/
def envFree (e : ℕ) : Spaces := fun s => if s.1 = e then none else S s

end Spaces

/-! ## File descriptors -/

def MAXFD : ℕ := 32
def FILEBASE : Word := 0x60000000
def FDTABLE : Word := FILEBASE - PDMAP

/-- `INDEX2FD(i)`. -/
def index2fd (i : Word) : Word := FDTABLE + i * BY2PG

/-- `INDEX2DATA(i)`. -/
def index2data (i : Word) : Word := FILEBASE + i * PDMAP

def fd2num (fd : Word) : Word := (fd - FDTABLE) / BY2PG

def fd2data (fd : Word) : Word := index2data (fd2num fd)

/-- `fd_lookup`: what is mapped at the page of a descriptor. -/
def Spaces.fdLookup (S : Spaces) (e : ℕ) (fdnum : Word) : Option Mapping :=
  if (32 : ℤ) ≤ fdnum.toInt then none else S (e, pn (index2fd fdnum))

/-! ## Page numbers of descriptors in range -/

/-- The page of the `struct Fd` of descriptor `d`. -/
def fdPage (d : ℕ) : ℕ := 0x5FC00 + d

/-- The first page of the window of descriptor `d`. -/
def dataPage (d : ℕ) : ℕ := 0x60000 + 1024 * d

lemma pn_eq (va : Word) : pn va = va.toNat / 4096 := VPN_toNat va

lemma index2fd_toNat {d : Word} (h : d < 32) :
    (index2fd d).toNat = 0x5FC00000 + 4096 * d.toNat := by
  have hd : d.toNat < 32 := BitVec.lt_def.mp h
  rw [index2fd, BitVec.toNat_add, BitVec.toNat_mul, show FDTABLE.toNat = 0x5FC00000 by decide,
    show BY2PG.toNat = 4096 by decide]
  omega

lemma fd2num_index2fd {d : Word} (h : d < 32) : fd2num (index2fd d) = d := by
  have hd : d.toNat < 32 := BitVec.lt_def.mp h
  apply BitVec.eq_of_toNat_eq
  rw [fd2num, BitVec.toNat_udiv, BitVec.toNat_sub, index2fd_toNat h,
    show FDTABLE.toNat = 0x5FC00000 by decide, show BY2PG.toNat = 4096 by decide]
  omega

lemma fd2data_toNat {d : Word} (h : d < 32) :
    (fd2data (index2fd d)).toNat = 0x60000000 + 0x400000 * d.toNat := by
  have hd : d.toNat < 32 := BitVec.lt_def.mp h
  rw [fd2data, fd2num_index2fd h, index2data, BitVec.toNat_add, BitVec.toNat_mul,
    show FILEBASE.toNat = 0x60000000 by decide, show PDMAP.toNat = 0x400000 by decide]
  omega

lemma pn_index2fd {d : Word} (h : d < 32) : pn (index2fd d) = fdPage d.toNat := by
  rw [pn_eq, index2fd_toNat h, fdPage]
  omega

/-- A page of the window of descriptor `d`. -/
lemma pn_window {d : Word} (h : d < 32) {i : ℕ} (hi : i < 1024) :
    pn (fd2data (index2fd d) + BitVec.ofNat 32 (i * 4096)) = dataPage d.toNat + i := by
  have hd : d.toNat < 32 := BitVec.lt_def.mp h
  rw [pn_eq, BitVec.toNat_add, fd2data_toNat h, BitVec.toNat_ofNat, dataPage]
  omega

lemma not_illegal {va : Word} (hlo : 0x3FE000 ≤ va.toNat) (hhi : va.toNat < 0x7F400000) :
    isIllegalVa va = false := by
  rw [isIllegalVa, decide_eq_false_iff_not, not_or, BitVec.not_lt, BitVec.not_le, BitVec.le_def,
    BitVec.lt_def, show UTEMP.toNat = 0x3FE000 by decide, show UTOP.toNat = 0x7F400000 by decide]
  exact ⟨hlo, hhi⟩

end MosRv
