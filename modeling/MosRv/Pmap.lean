import MosRv.Lib.Prog
import MosRv.Mmu

/-!
# Physical pages and two-level page tables (`kern/pmap.c`)

`Pmap` is the part of the kernel state that `kern/pmap.c` works on: the reference counts of
`pages[]`, `page_free_list`, and physical memory, which also holds the page directories and page
tables themselves.  Memory is a word for each frame and each of its 1024 word positions; the
frame of page `pp` is `pp` (see `frameOf`).  A page directory is named by its frame, a
`Pte *` by the frame and position it points at.

The functions keep the order of effects of the source.  `tlb_invalidate` has no counterpart: an
address is always translated by walking the tables as they are.

The second half of the file gives each function its specification.  `pageInsert_cases` is the one
the rest of the development uses: a successful `pageInsert` rewrites the flags of an entry in
place, replaces an entry, fills an empty one, or first grows a page table.
-/

namespace MosRv

/-- The state of `kern/pmap.c`. -/
structure Pmap where
  npage : ℕ
  /-- `pages[i].pp_ref`, a `u_short`. -/
  ppRef : ℕ → BitVec 16
  pageFreeList : List ℕ
  /-- Physical memory: frame, word position. -/
  mem : ℕ → ℕ → Word

abbrev PmapM := Prog Exit Panic Pmap

namespace Pmap

/-- Store `w` at position `i` of frame `f`. -/
def write (m : Pmap) (f i : ℕ) (w : Word) : Pmap :=
  { m with mem := fun f' i' => if f' = f ∧ i' = i then w else m.mem f' i' }

/-- `memset(page2kva(f), 0, BY2PG)`. -/
def zero (m : Pmap) (f : ℕ) : Pmap :=
  { m with mem := fun f' i' => if f' = f then 0#32 else m.mem f' i' }

def setRef (m : Pmap) (pp : ℕ) (r : BitVec 16) : Pmap :=
  { m with ppRef := Function.update m.ppRef pp r }

/-- The entry of `pgdir` for `va`. -/
def pde (m : Pmap) (pgdir : ℕ) (va : Word) : Word := m.mem pgdir (PDX va)

/-- Where `pgdir_walk` finds the page-table entry for `va`, if there is a page table. -/
def walk (m : Pmap) (pgdir : ℕ) (va : Word) : Option (ℕ × ℕ) :=
  if HasFlag (m.pde pgdir va) PTE_V then some (pteFrame (m.pde pgdir va), PTX va) else none

end Pmap

/-! ## The functions -/

def pageAlloc : PmapM ℕ := do
  let m ← Prog.get
  match m.pageFreeList with
  | [] => Prog.exit (.code .noMem)
  | pp :: rest => do
      Prog.set ({ m with pageFreeList := rest }.zero pp)
      pure pp

def pageFree (pp : ℕ) : PmapM Unit := do
  let m ← Prog.get
  if m.ppRef pp = 0#16 then Prog.set { m with pageFreeList := pp :: m.pageFreeList }
  else Prog.panic .assertRefZero

def paddr2pte (pa : Word) : PmapM Word :=
  if pa < KSEG0 then Prog.panic .ppnInvalidPa else pure (paddr2pteBits pa)

def pa2page (pa : Word) : PmapM ℕ := do
  let m ← Prog.get
  if m.npage ≤ frameOf pa then Prog.panic .pa2pageInvalidPa else pure (frameOf pa)

/-- `pgdir_walk`: the position of the entry for `va`, or `none` for a null pointer. -/
def pgdirWalk (pgdir : ℕ) (va : Word) (create : Bool) : PmapM (Option (ℕ × ℕ)) := do
  let m ← Prog.get
  if HasFlag (m.pde pgdir va) PTE_V then pure (m.walk pgdir va)
  else if create then do
    let pp ← pageAlloc
    Prog.modify fun m => m.setRef pp 1#16
    let w ← paddr2pte (page2pa pp)
    Prog.modify fun m => m.write pgdir (PDX va) (w ||| PTE_V)
    let m ← Prog.get
    pure (some (pteFrame (m.pde pgdir va), PTX va))
  else pure none

/-- `page_lookup`: the page mapped at `va` and the position of its entry. -/
def pageLookup (pgdir : ℕ) (va : Word) : PmapM (Option (ℕ × ℕ × ℕ)) := do
  let pte ← pgdirWalk pgdir va false
  match pte with
  | none => pure none
  | some (t, j) => do
      let m ← Prog.get
      if HasFlag (m.mem t j) PTE_V then do
        let pp ← pa2page (pte2paddr (m.mem t j))
        pure (some (pp, t, j))
      else pure none

def pageDecref (pp : ℕ) : PmapM Unit := do
  let m ← Prog.get
  if m.ppRef pp = 0#16 then Prog.panic .assertRefPos
  else do
    Prog.modify fun m => m.setRef pp (m.ppRef pp - 1#16)
    let m ← Prog.get
    if m.ppRef pp = 0#16 then pageFree pp else pure ()

def pageRemove (pgdir : ℕ) (_asid va : Word) : PmapM Unit := do
  let found ← pageLookup pgdir va
  match found with
  | none => pure ()
  | some (pp, t, j) => do
      pageDecref pp
      Prog.modify fun m => m.write t j 0#32

/-- The flag bits `page_insert` puts into an entry. -/
def entryFlags (perm : Word) : Word := perm ||| PTE_A ||| PTE_D ||| PTE_R ||| PTE_V

/-- Steps 3 and 4 of `page_insert`: get or create the entry, count `pp` up and write it. -/
def pageInsertNew (pgdir pp : ℕ) (va perm : Word) : PmapM Unit := do
  let pte ← pgdirWalk pgdir va true
  match pte with
  | none => pure ()
  | some (t, j) => do
      Prog.modify fun m => m.setRef pp (m.ppRef pp + 1#16)
      let w ← paddr2pte (page2pa pp)
      Prog.modify fun m => m.write t j (w ||| entryFlags perm)

def pageInsert (pgdir : ℕ) (asid : Word) (pp : ℕ) (va perm : Word) : PmapM Unit :=
  if ULIM ≤ va then Prog.panic .mapKernelSpace
  else do
    let pte ← pgdirWalk pgdir va false
    match pte with
    | none => pageInsertNew pgdir pp va perm
    | some (t, j) => do
        let m ← Prog.get
        if HasFlag (m.mem t j) PTE_V then do
          let q ← pa2page (pte2paddr (m.mem t j))
          if q ≠ pp then do
            pageRemove pgdir asid va
            pageInsertNew pgdir pp va perm
          else
            Prog.modify fun m => m.write t j ((m.mem t j &&& ~~~0x3FF#32) ||| entryFlags perm)
        else pageInsertNew pgdir pp va perm

/-- `va2pa` (`include/pmap.h`): the physical page at `va`, or `~0`. -/
def va2pa (m : Pmap) (pgdir : ℕ) (va : Word) : Word :=
  match m.walk pgdir va with
  | none => ~~~0#32
  | some (t, j) => if HasFlag (m.mem t j) PTE_V then pte2paddr (m.mem t j) else ~~~0#32

/-! ## State updates -/

namespace Pmap

variable (m : Pmap) (f i f' i' pp : ℕ) (w : Word) (r : BitVec 16)

@[simp] lemma write_npage : (m.write f i w).npage = m.npage := rfl
@[simp] lemma write_ppRef : (m.write f i w).ppRef = m.ppRef := rfl
@[simp] lemma write_pageFreeList : (m.write f i w).pageFreeList = m.pageFreeList := rfl
lemma write_mem : (m.write f i w).mem f' i' = if f' = f ∧ i' = i then w else m.mem f' i' := rfl

@[simp] lemma write_mem_self : (m.write f i w).mem f i = w := by simp [write_mem]

variable {f f'} in
lemma write_mem_of_ne (h : f' ≠ f) : (m.write f i w).mem f' = m.mem f' := by
  funext i'
  simp [write_mem, h]

lemma write_write (w' : Word) : (m.write f i w).write f i w' = m.write f i w' := by
  rw [write, write]
  congr 1
  funext f' i'
  by_cases h : f' = f ∧ i' = i <;> simp [h]

@[simp] lemma zero_npage : (m.zero f).npage = m.npage := rfl
@[simp] lemma zero_ppRef : (m.zero f).ppRef = m.ppRef := rfl
@[simp] lemma zero_pageFreeList : (m.zero f).pageFreeList = m.pageFreeList := rfl
@[simp] lemma zero_mem_self : (m.zero f).mem f i = 0#32 := by simp [zero]

variable {f f'} in
lemma zero_mem_of_ne (h : f' ≠ f) : (m.zero f).mem f' = m.mem f' := by
  funext i'
  simp [zero, h]

@[simp] lemma setRef_npage : (m.setRef pp r).npage = m.npage := rfl
@[simp] lemma setRef_ppRef : (m.setRef pp r).ppRef = Function.update m.ppRef pp r := rfl
@[simp] lemma setRef_pageFreeList : (m.setRef pp r).pageFreeList = m.pageFreeList := rfl
@[simp] lemma setRef_mem : (m.setRef pp r).mem = m.mem := rfl
@[simp] lemma setRef_pde (d : ℕ) (va : Word) : (m.setRef pp r).pde d va = m.pde d va := rfl
@[simp] lemma setRef_write : (m.setRef pp r).write f i w = (m.write f i w).setRef pp r := rfl

/-- What `page_alloc` leaves when it hands out `pp`, the head of the free list. -/
def take (pp : ℕ) (rest : List ℕ) : Pmap := { m with pageFreeList := rest }.zero pp

/-- What `page_decref` leaves: the count goes down, and at zero the page is free. -/
def release (pp : ℕ) : Pmap :=
  { m.setRef pp (m.ppRef pp - 1#16) with
    pageFreeList := if m.ppRef pp - 1#16 = 0#16 then pp :: m.pageFreeList else m.pageFreeList }

def addRef (pp : ℕ) : Pmap := m.setRef pp (m.ppRef pp + 1#16)

/-- What `pgdir_walk` leaves when it makes `t` the page table at position `i` of `d`. -/
def grow (d i t : ℕ) (rest : List ℕ) : Pmap :=
  ((m.take t rest).setRef t 1#16).write d i (pteOf t ||| PTE_V)

@[simp] lemma take_npage (rest : List ℕ) : (m.take pp rest).npage = m.npage := rfl
@[simp] lemma take_ppRef (rest : List ℕ) : (m.take pp rest).ppRef = m.ppRef := rfl
@[simp] lemma take_pageFreeList (rest : List ℕ) : (m.take pp rest).pageFreeList = rest := rfl
@[simp] lemma take_mem_self (rest : List ℕ) : (m.take pp rest).mem pp i = 0#32 := by simp [take]

variable {f pp} in
lemma take_mem_of_ne (rest : List ℕ) (h : f ≠ pp) : (m.take pp rest).mem f = m.mem f :=
  zero_mem_of_ne _ h

@[simp] lemma release_npage : (m.release pp).npage = m.npage := rfl
@[simp] lemma release_mem : (m.release pp).mem = m.mem := rfl
@[simp] lemma release_ppRef :
    (m.release pp).ppRef = Function.update m.ppRef pp (m.ppRef pp - 1#16) := rfl
@[simp] lemma release_pageFreeList : (m.release pp).pageFreeList =
    if m.ppRef pp - 1#16 = 0#16 then pp :: m.pageFreeList else m.pageFreeList := rfl

@[simp] lemma addRef_npage : (m.addRef pp).npage = m.npage := rfl
@[simp] lemma addRef_mem : (m.addRef pp).mem = m.mem := rfl
@[simp] lemma addRef_ppRef :
    (m.addRef pp).ppRef = Function.update m.ppRef pp (m.ppRef pp + 1#16) := rfl
@[simp] lemma addRef_pageFreeList : (m.addRef pp).pageFreeList = m.pageFreeList := rfl

end Pmap

/-! ## Flags -/

/-- A flag is in a union exactly when it is in one of the parts. -/
@[simp] lemma hasFlag_or (a b flag : Word) :
    HasFlag (a ||| b) flag ↔ HasFlag a flag ∨ HasFlag b flag := by
  simp only [HasFlag, BitVec.and_or_distrib_right, ne_eq, BitVec.or_eq_zero_iff]
  tauto

@[simp] lemma hasFlag_PTE_V : HasFlag PTE_V PTE_V := by decide

@[simp] lemma not_hasFlag_zero (flag : Word) : ¬ HasFlag 0#32 flag := by simp [HasFlag]

lemma fits_or {a b : Word} {pp : ℕ} : Fits (a ||| b) pp ↔ Fits a pp ∧ Fits b pp := by
  rw [Fits, ptePpn, BitVec.ushiftRight_or_distrib, BitVec.and_or_distrib_right]
  exact BitVec.or_eq_zero_iff

/-- Only the caller's flags matter for whether an entry keeps its page number. -/
lemma fits_entryFlags {perm : Word} {pp : ℕ} : Fits (entryFlags perm) pp ↔ Fits perm pp := by
  simp only [entryFlags, fits_or]
  have h : ∀ {x : Word}, x < 0x400 → Fits x pp := fun hx => fits_of_lt hx pp
  simp [h (x := PTE_A) (by decide), h (x := PTE_D) (by decide), h (x := PTE_R) (by decide),
    h (x := PTE_V) (by decide)]

@[simp] lemma hasFlag_entryFlags (perm : Word) : HasFlag (entryFlags perm) PTE_V := by
  simp [entryFlags]

/-! ## Specifications -/

section Spec

variable {m : Pmap} {d pp : ℕ} {asid va perm : Word} {E : Exit → Pmap → Prop} {P : Panic → Prop}

lemma Pmap.walk_of_valid (h : HasFlag (m.pde d va) PTE_V) :
    m.walk d va = some (pteFrame (m.pde d va), PTX va) := if_pos h

lemma Pmap.walk_of_not_valid (h : ¬ HasFlag (m.pde d va) PTE_V) : m.walk d va = none := if_neg h

lemma wp_pageAlloc_nil {Q : ℕ → Pmap → Prop} (h : m.pageFreeList = []) :
    Prog.wp pageAlloc m Q E P ↔ E (.code .noMem) m := by
  simp [pageAlloc, h]

lemma wp_pageAlloc_cons {Q : ℕ → Pmap → Prop} {rest : List ℕ} (h : m.pageFreeList = pp :: rest) :
    Prog.wp pageAlloc m Q E P ↔ Q pp (m.take pp rest) := by
  simp [pageAlloc, h, Pmap.take]

@[simp] lemma wp_pa2page {Q : ℕ → Pmap → Prop} (pa : Word) :
    Prog.wp (pa2page pa) m Q E P ↔
      (m.npage ≤ frameOf pa → P .pa2pageInvalidPa) ∧ (frameOf pa < m.npage → Q (frameOf pa) m) := by
  simp [pa2page]

lemma wp_paddr2pte {Q : Word → Pmap → Prop} (h : pp < 0x80000) :
    Prog.wp (paddr2pte (page2pa pp)) m Q E P ↔ Q (pteOf pp) m := by
  have hge : ¬ page2pa pp < KSEG0 := by
    rw [BitVec.lt_def, page2pa_toNat h, show KSEG0.toNat = 0x80000000 by decide]
    omega
  simp [paddr2pte, hge, pteOf]

@[simp] lemma wp_pgdirWalk_false {Q : Option (ℕ × ℕ) → Pmap → Prop} :
    Prog.wp (pgdirWalk d va false) m Q E P ↔ Q (m.walk d va) m := by
  by_cases h : HasFlag (m.pde d va) PTE_V
  · rw [pgdirWalk]
    simp only [Prog.wp_bind, Prog.wp_get, if_pos h, Prog.wp_pure]
  · rw [pgdirWalk]
    simp only [Prog.wp_bind, Prog.wp_get, if_neg h, Bool.false_eq_true, if_false, Prog.wp_pure,
      Pmap.walk_of_not_valid h]

lemma wp_pgdirWalk_true {Q : Option (ℕ × ℕ) → Pmap → Prop} (h : HasFlag (m.pde d va) PTE_V) :
    Prog.wp (pgdirWalk d va true) m Q E P ↔ Q (m.walk d va) m := by
  rw [pgdirWalk]
  simp only [Prog.wp_bind, Prog.wp_get, if_pos h, Prog.wp_pure]

lemma wp_pgdirWalk_grow {Q : Option (ℕ × ℕ) → Pmap → Prop} {t : ℕ} {rest : List ℕ}
    (h : ¬ HasFlag (m.pde d va) PTE_V) (hfree : m.pageFreeList = t :: rest) (ht : t < 0x80000) :
    Prog.wp (pgdirWalk d va true) m Q E P ↔
      Q (some (t, PTX va)) (m.grow d (PDX va) t rest) := by
  have hframe : pteFrame (pteOf t ||| PTE_V) = t := pteFrame_or ht (fits_of_lt (by decide) t)
  rw [pgdirWalk]
  simp only [Prog.wp_bind, Prog.wp_get, if_neg h, if_true, wp_pageAlloc_cons hfree,
    Prog.wp_modify, wp_paddr2pte ht, Prog.wp_pure]
  simp only [Pmap.pde, Pmap.write_mem_self, hframe]
  rfl

lemma wp_pgdirWalk_noMem {Q : Option (ℕ × ℕ) → Pmap → Prop}
    (h : ¬ HasFlag (m.pde d va) PTE_V) (hfree : m.pageFreeList = []) :
    Prog.wp (pgdirWalk d va true) m Q E P ↔ E (.code .noMem) m := by
  rw [pgdirWalk]
  simp only [Prog.wp_bind, Prog.wp_get, if_neg h, if_true, wp_pageAlloc_nil hfree]

lemma wp_pageDecref {Q : Unit → Pmap → Prop} :
    Prog.wp (pageDecref pp) m Q E P ↔
      (m.ppRef pp = 0#16 → P .assertRefPos) ∧ (m.ppRef pp ≠ 0#16 → Q () (m.release pp)) := by
  rw [pageDecref]
  simp only [Prog.wp_bind, Prog.wp_get, Prog.wp_ite, Prog.wp_panic, Prog.wp_modify, Prog.wp_pure,
    Pmap.setRef_ppRef, Function.update_self, pageFree, Prog.wp_set]
  by_cases h1 : m.ppRef pp - 1#16 = 0#16
  · simp [h1, Pmap.release, Pmap.setRef]
  · simp [h1, Pmap.release, Pmap.setRef]

lemma wp_pageLookup {Q : Option (ℕ × ℕ × ℕ) → Pmap → Prop} :
    Prog.wp (pageLookup d va) m Q E P ↔
      match m.walk d va with
      | none => Q none m
      | some (t, j) =>
          (¬ HasFlag (m.mem t j) PTE_V → Q none m) ∧
          (HasFlag (m.mem t j) PTE_V →
            (m.npage ≤ pteFrame (m.mem t j) → P .pa2pageInvalidPa) ∧
            (pteFrame (m.mem t j) < m.npage → Q (some (pteFrame (m.mem t j), t, j)) m)) := by
  rw [pageLookup, Prog.wp_bind, wp_pgdirWalk_false]
  cases m.walk d va with
  | none => rfl
  | some tj =>
      simp only [Prog.wp_bind, Prog.wp_get, Prog.wp_ite, wp_pa2page, Prog.wp_pure]
      exact and_comm

lemma wp_pageRemove {Q : Unit → Pmap → Prop} :
    Prog.wp (pageRemove d asid va) m Q E P ↔
      match m.walk d va with
      | none => Q () m
      | some (t, j) =>
          (¬ HasFlag (m.mem t j) PTE_V → Q () m) ∧
          (HasFlag (m.mem t j) PTE_V →
            (m.npage ≤ pteFrame (m.mem t j) → P .pa2pageInvalidPa) ∧
            (pteFrame (m.mem t j) < m.npage →
              (m.ppRef (pteFrame (m.mem t j)) = 0#16 → P .assertRefPos) ∧
              (m.ppRef (pteFrame (m.mem t j)) ≠ 0#16 →
                Q () ((m.release (pteFrame (m.mem t j))).write t j 0#32)))) := by
  rw [pageRemove, Prog.wp_bind, wp_pageLookup]
  cases m.walk d va with
  | none => rfl
  | some tj => simp only [Prog.wp_bind, wp_pageDecref, Prog.wp_modify, Prog.wp_pure]

/-- The position of the entry for `va` when `d` has a page table `t` there. -/
def Pmap.TableAt (m : Pmap) (d : ℕ) (va : Word) (t : ℕ) : Prop :=
  HasFlag (m.pde d va) PTE_V ∧ pteFrame (m.pde d va) = t

lemma Pmap.walk_eq_some {t j : ℕ} : m.walk d va = some (t, j) ↔ m.TableAt d va t ∧ PTX va = j := by
  rw [Pmap.walk, Pmap.TableAt]
  split_ifs with h
  · simp [h]
  · simp [h]

/-- The ways a `page_insert` of `pp` at `va` can succeed. -/
inductive InsertCase (m : Pmap) (d pp : ℕ) (va perm : Word) : Pmap → Prop
  /-- `pp` is mapped there already: new flags in place. -/
  | reflag {t : ℕ} (ht : m.TableAt d va t) (hv : HasFlag (m.mem t (PTX va)) PTE_V)
      (hpp : pteFrame (m.mem t (PTX va)) = pp) :
      InsertCase m d pp va perm
        (m.write t (PTX va) ((m.mem t (PTX va) &&& ~~~0x3FF#32) ||| entryFlags perm))
  /-- Another page is mapped there: it is removed first. -/
  | replace {t q : ℕ} (ht : m.TableAt d va t) (hv : HasFlag (m.mem t (PTX va)) PTE_V)
      (hq : pteFrame (m.mem t (PTX va)) = q) (hlt : q < m.npage) (hne : q ≠ pp)
      (hr : m.ppRef q ≠ 0#16) :
      InsertCase m d pp va perm
        (((m.release q).addRef pp).write t (PTX va) (pteOf pp ||| entryFlags perm))
  /-- The entry is empty. -/
  | fill {t : ℕ} (ht : m.TableAt d va t) (hv : ¬ HasFlag (m.mem t (PTX va)) PTE_V) :
      InsertCase m d pp va perm ((m.addRef pp).write t (PTX va) (pteOf pp ||| entryFlags perm))
  /-- There is no page table: `t` becomes one. -/
  | grow {t : ℕ} {rest : List ℕ} (hv : ¬ HasFlag (m.pde d va) PTE_V)
      (hfree : m.pageFreeList = t :: rest) :
      InsertCase m d pp va perm
        (((m.grow d (PDX va) t rest).addRef pp).write t (PTX va) (pteOf pp ||| entryFlags perm))

lemma wp_pageInsertNew_table {Q : Unit → Pmap → Prop} (hpp : pp < 0x80000) {t : ℕ}
    (ht : m.TableAt d va t) :
    Prog.wp (pageInsertNew d pp va perm) m Q E P ↔
      Q () ((m.addRef pp).write t (PTX va) (pteOf pp ||| entryFlags perm)) := by
  rw [pageInsertNew, Prog.wp_bind, wp_pgdirWalk_true ht.1, Pmap.walk_of_valid ht.1, ht.2]
  simp only [Prog.wp_bind, Prog.wp_modify, wp_paddr2pte hpp]
  rfl

lemma wp_pageInsertNew_grow {Q : Unit → Pmap → Prop} (hpp : pp < 0x80000) {t : ℕ} {rest : List ℕ}
    (h : ¬ HasFlag (m.pde d va) PTE_V) (hfree : m.pageFreeList = t :: rest) (ht : t < 0x80000) :
    Prog.wp (pageInsertNew d pp va perm) m Q E P ↔
      Q () (((m.grow d (PDX va) t rest).addRef pp).write t (PTX va)
        (pteOf pp ||| entryFlags perm)) := by
  rw [pageInsertNew, Prog.wp_bind, wp_pgdirWalk_grow h hfree ht]
  simp only [Prog.wp_bind, Prog.wp_modify, wp_paddr2pte hpp]
  rfl

/-- **`page_insert`, case by case.**  It fails only for want of a page table, and then changes
nothing. -/
lemma pageInsert_cases (asid perm : Word) (hva : va < ULIM) (hpp : pp < 0x80000)
    (hfree : ∀ t ∈ m.pageFreeList, t < 0x80000) (hself : ¬ m.TableAt d va d) :
    Prog.wp (pageInsert d asid pp va perm) m
      (fun _ m' => InsertCase m d pp va perm m')
      (fun e m' => e = .code .noMem ∧ m' = m ∧ m.pageFreeList = [] ∧
        ¬ HasFlag (m.pde d va) PTE_V)
      (fun p => ∃ t, m.TableAt d va t ∧ HasFlag (m.mem t (PTX va)) PTE_V ∧
        ((p = .pa2pageInvalidPa ∧ m.npage ≤ pteFrame (m.mem t (PTX va))) ∨
          (p = .assertRefPos ∧ m.ppRef (pteFrame (m.mem t (PTX va))) = 0#16))) := by
  have hle : ¬ ULIM ≤ va := by simpa using hva
  rw [pageInsert, if_neg hle, Prog.wp_bind, wp_pgdirWalk_false]
  by_cases hv : HasFlag (m.pde d va) PTE_V
  · -- a page table exists
    obtain ⟨t, ht⟩ : ∃ t, m.TableAt d va t := ⟨_, hv, rfl⟩
    have htd : d ≠ t := fun h => hself (h ▸ ht)
    rw [Pmap.walk_eq_some.mpr ⟨ht, rfl⟩]
    simp only [Prog.wp_bind, Prog.wp_get, Prog.wp_ite, wp_pa2page, Prog.wp_modify]
    refine ⟨fun hpv => ⟨fun hinv => ⟨t, ht, hpv, .inl ⟨trivial, hinv⟩⟩, fun hlt => ⟨fun hne => ?_,
      fun heq => ?_⟩⟩, fun hpv => ?_⟩
    · rw [wp_pageRemove, Pmap.walk_eq_some.mpr ⟨ht, rfl⟩]
      refine ⟨fun h => absurd hpv h, fun _ =>
        ⟨fun h => absurd h (not_le.mpr hlt), fun _ => ⟨?_, ?_⟩⟩⟩
      · exact fun hr => ⟨t, ht, hpv, .inr ⟨rfl, hr⟩⟩
      · intro hr
        -- the removal wrote into the table, not into the directory
        have ht' : ((m.release (pteFrame (m.mem t (PTX va)))).write t (PTX va) 0#32).TableAt
            d va t := by
          simpa [Pmap.TableAt, Pmap.pde, Pmap.write_mem_of_ne _ _ _ htd] using ht
        rw [wp_pageInsertNew_table hpp ht', Pmap.addRef, Pmap.setRef_write, Pmap.write_write]
        exact .replace ht hpv rfl hlt hne hr
    · exact .reflag ht hpv (not_not.mp heq)
    · rw [wp_pageInsertNew_table hpp ht]
      exact .fill ht hpv
  · -- no page table: take one from the free list
    rw [Pmap.walk_of_not_valid hv]
    cases hl : m.pageFreeList with
    | nil =>
        change Prog.wp (pageInsertNew d pp va perm) _ _ _ _
        rw [pageInsertNew, Prog.wp_bind, wp_pgdirWalk_noMem hv hl]
        exact ⟨rfl, rfl, rfl, hv⟩
    | cons t rest =>
        change Prog.wp (pageInsertNew d pp va perm) _ _ _ _
        rw [wp_pageInsertNew_grow hpp hv hl (hfree t (by simp [hl]))]
        exact .grow hv hl

end Spec

end MosRv
