import MosRv.Traps

/-!
# From power-on to the first env (`kern/pmap.c`, `kern/env.c`, `lib/elfloader.c`)

`Machine` is what `riscv_detect_memory` and `riscv_vm_init` find and leave behind: the number of
pages, where the kernel's own arrays lie, and the contents of memory.  `boot` runs `page_init` and
`env_init` on it.  `envCreate` makes an env from an ELF image; it is called only before the first
timer interrupt.

An `Image` is a binary whose loadable segments lie below `UTOP`, as the linker script of the user
programs places them.
-/

namespace MosRv

/-- `ROUND(npage * sizeof(struct Page), BY2PG) / BY2PG`. -/
def pagesSpan (npage : ℕ) : ℕ := (npage * 12 + 4095) / 4096

/-- `ROUND(NENV * sizeof(struct Env), BY2PG) / BY2PG`. -/
def envsSpan : ℕ := 53

lemma envsSpan_below : 0x500 + envsSpan ≤ 0x600 := by decide

/-- The machine as `riscv_vm_init` leaves it.  `pages` starts at `end`, frame `0x600`, followed by
`kbasepgdir`; `envs` is in the bss segment below. -/
structure Machine where
  npage : ℕ
  envsFrame : ℕ
  mem : ℕ → ℕ → Word
  npage_le : npage ≤ 0x80000
  /-- `alloc` did not run out of memory. -/
  room : 0x600 + pagesSpan npage + 1 < npage
  envs_below : envsFrame + envsSpan ≤ 0x600
  /-- See `Kernel.audit`. -/
  audit : Bool

namespace Machine

variable (mc : Machine)

/-- The frame of `pages[]`. -/
def pagesFrame : ℕ := 0x600

/-- The frame of `kbasepgdir`. -/
def kbasepgdir : ℕ := 0x600 + pagesSpan mc.npage

/-- The first page that `alloc` did not hand out: `PPN(freemem) - PPNOFFSET`. -/
def nUsed : ℕ := 0x600 + pagesSpan mc.npage + 1

end Machine

/-! ## `page_init` and `env_init` -/

def pageInit (nUsed : ℕ) : PmapM Unit := do
  Prog.modify fun m => { m with pageFreeList := [] }
  Prog.forRange (fun i => Prog.modify fun m => m.setRef i 1#16) 0 nUsed
  let m ← Prog.get
  Prog.forRange (fun i => Prog.modify fun m => { m with pageFreeList := i :: m.pageFreeList })
    nUsed (m.npage - nUsed)

/-- `map_segment`, for a segment of `n` pages. -/
@[irreducible] def mapSegment (pgdir : ℕ) (asid pa va : Word) (n : ℕ) (perm : Word) : PmapM Unit :=
  if pa.toNat % 4096 = 0 ∧ va.toNat % 4096 = 0 then
    Prog.forRange (fun i => do
      let p ← pa2page (pa + BitVec.ofNat 32 (i * 4096))
      -- the result is not looked at
      let _ ← Prog.attempt (pageInsert pgdir asid p (va + BitVec.ofNat 32 (i * 4096))
        (perm ||| PTE_R ||| PTE_V))
      pure ()) 0 n
  else Prog.panic .assertAligned

/-- The page directory part of `env_init`; it returns `base_pgdir`. -/
def envInitVm (mc : Machine) : PmapM ℕ := do
  let p ← panicOn pageAlloc
  Prog.modify fun m => m.addRef p
  mapSegment p 0#32 (page2pa Machine.pagesFrame) UPAGES (pagesSpan mc.npage) (PTE_G ||| PTE_U)
  mapSegment p 0#32 (page2pa mc.envsFrame) UENVS envsSpan (PTE_G ||| PTE_U)
  Prog.modify fun m => m.copyWords p mc.kbasepgdir (PDX KSEG0) 512
  pure p

def envInit (mc : Machine) : KernelM Unit := do
  Prog.modify fun k => { k with envFreeList := [], envSchedList := k.envSchedList.init }
  -- `for (i = NENV; i >= 0; i--)`
  Prog.forRange (fun j => Prog.modify fun k =>
    { k with envFreeList := (NENV - j) :: k.envFreeList })
    0 (NENV + 1)
  let p ← liftPm (envInitVm mc)
  Prog.modify fun k => { k with basePgdir := p }

/-- Zeroed memory, as a trap frame. -/
def zeroTf : Trapframe := ⟨fun _ => 0#32, 0#32, 0#32, 0#32, 0#32⟩

/-- An element of `envs[]` before `env_init`. -/
def zeroEnv : Env where
  envTf := zeroTf
  envId := 0#32
  envAsid := 0#32
  envParentId := 0#32
  envStatus := .free
  envPgdir := 0
  envPri := 0#32
  envIpcValue := 0#32
  envIpcFrom := 0#32
  envIpcRecving := 0#32
  envIpcDstva := 0#32
  envIpcPerm := 0#32
  envUserTlbModEntry := 0#32
  envRuns := 0#32

/-- The kernel's static data before `page_init`. -/
def Machine.initial (mc : Machine) (dev : Devices) : Kernel where
  pm := { npage := mc.npage, ppRef := fun _ => 0#16, pageFreeList := [], mem := mc.mem }
  envs := fun _ => zeroEnv
  curenv := none
  curPgdir := none
  envFreeList := []
  envSchedList := { first := none, last := .null, next := fun _ => none, prev := fun _ => .null }
  basePgdir := 0
  asidBitmap := fun _ => 0#32
  mkenvidI := 0#32
  schedCount := 0#32
  ktf := zeroTf
  dev := dev
  audit := mc.audit

/-- `page_init(); env_init();` -/
def bootProg (mc : Machine) : KernelM Unit := do
  liftPm (pageInit mc.nUsed)
  envInit mc

/-! ## ELF images -/

/-- A file in memory. -/
structure Binary where
  size : ℕ
  byte : ℕ → BitVec 8

namespace Binary

variable (b : Binary)

def half (off : ℕ) : ℕ := (b.byte (off + 1) ++ b.byte off).toNat

def word (off : ℕ) : Word := b.byte (off + 3) ++ b.byte (off + 2) ++ b.byte (off + 1) ++ b.byte off

/-- `elf_from` accepts the file. -/
def elfFrom : Bool :=
  decide (52 ≤ b.size ∧ b.byte 0 = 0x7f ∧ b.byte 1 = 0x45 ∧ b.byte 2 = 0x4c ∧ b.byte 3 = 0x46 ∧
    b.half 16 = 2)

def eEntry : Word := b.word 24
def ePhoff : ℕ := (b.word 28).toNat
def ePhentsize : ℕ := b.half 42
def ePhnum : ℕ := b.half 44

end Binary

/-- The fields of `Elf32_Phdr` that the loader reads. -/
structure Phdr where
  pType : Word
  pOffset : Word
  pVaddr : Word
  pFilesz : Word
  pMemsz : Word
  pFlags : Word

def PT_LOAD : Word := 1
def PF_X : Word := 1
def PF_W : Word := 2

def Binary.phdr (b : Binary) (i : ℕ) : Phdr :=
  let off := b.ePhoff + i * b.ePhentsize
  { pType := b.word off, pOffset := b.word (off + 4), pVaddr := b.word (off + 8)
    pFilesz := b.word (off + 16), pMemsz := b.word (off + 20), pFlags := b.word (off + 24) }

/-- `if (src != NULL) memcpy(page2kva(p) + offset, src, len);` -/
def copyIn (p offset : ℕ) (src : Option (ℕ → BitVec 8)) (len : ℕ) : PmapM Unit :=
  match src with
  | some src => Prog.forRange (fun i => Prog.modify fun m => m.setByte p (offset + i) (src i)) 0 len
  | none => pure ()

def loadIcodeMapper (e : ℕ) (va : Word) (offset : ℕ) (perm : Word) (src : Option (ℕ → BitVec 8))
    (len : ℕ) : KernelM Unit := do
  let p ← liftPm pageAlloc
  liftPm (copyIn p offset src len)
  let k ← Prog.get
  liftPm (pageInsert (k.envs e).envPgdir (k.envs e).envAsid p va (perm ||| PTE_U))

/-- Where the page-wise loops of `elf_load_seg` start: behind the part on a first partial page. -/
def Phdr.start (ph : Phdr) : ℕ :=
  let offset := ph.pVaddr.toNat % 4096
  if offset = 0 then 0 else min ph.pFilesz.toNat (4096 - offset)

def Phdr.perm (ph : Phdr) : Word :=
  PTE_V ||| (if HasFlag ph.pFlags PF_W then PTE_W else 0#32) |||
    (if HasFlag ph.pFlags PF_X then PTE_X else 0#32)

/-- The number of rounds of `for (; i < bound; i += BY2PG)`. -/
def rounds (i bound : ℕ) : ℕ := (bound - i + 4095) / 4096

/-- A callback of `elf_load_seg`: address, offset in the page, permission, source, length. -/
abbrev Mapper := Word → ℕ → Word → Option (ℕ → BitVec 8) → ℕ → KernelM Unit

/-- The partial page at the start of a segment. -/
def Phdr.loadHead (ph : Phdr) (bin : ℕ → BitVec 8) (mapPage : Mapper) : KernelM Unit :=
  let offset := ph.pVaddr.toNat % 4096
  if offset ≠ 0 then
    mapPage ph.pVaddr offset ph.perm (some bin) (min ph.pFilesz.toNat (4096 - offset))
  else pure ()

def elfLoadSeg (ph : Phdr) (bin : ℕ → BitVec 8) (mapPage : Mapper) : KernelM Unit := do
  ph.loadHead bin mapPage
  let binSize := ph.pFilesz.toNat
  let n := rounds ph.start binSize
  Prog.forRange (fun r => do
    let i := ph.start + r * 4096
    mapPage (ph.pVaddr + BitVec.ofNat 32 i) 0 ph.perm (some fun j => bin (i + j))
      (min (binSize - i) 4096)) 0 n
  let i₁ := ph.start + n * 4096
  Prog.forRange (fun r => do
    let i := i₁ + r * 4096
    mapPage (ph.pVaddr + BitVec.ofNat 32 i) 0 ph.perm none (min (binSize - i) 4096))
    0 (rounds i₁ ph.pMemsz.toNat)

/-- `panic_on(x)`, in the kernel. -/
def panicOnK {α : Type} (x : KernelM α) : KernelM α := do
  let r ← Prog.attempt x
  match r with
  | .ok a => pure a
  | .error (.code e) => Prog.panic (.panicOn e)
  | .error .popTf => Prog.exit .popTf

def loadIcode (e : ℕ) (b : Binary) : KernelM Unit :=
  if b.elfFrom then do
    Prog.forRange (fun i => do
      if (b.phdr i).pType = PT_LOAD then
        panicOnK (elfLoadSeg (b.phdr i) (fun j => b.byte ((b.phdr i).pOffset.toNat + j))
          (loadIcodeMapper e))
      else pure ()) 0 b.ePhnum
    modifyEnv e fun v => { v with envTf := { v.envTf with epc := b.eEntry } }
  else Prog.panic .badElf

/-- The loadable segments lie below `UTOP`. -/
def Binary.Placed (b : Binary) : Prop :=
  ∀ i < b.ePhnum, (b.phdr i).pType = PT_LOAD →
    (b.phdr i).pVaddr < UTOP ∧
    (b.phdr i).pVaddr.toNat + max (b.phdr i).pFilesz.toNat (b.phdr i).pMemsz.toNat ≤ UTOP.toNat

/-- A program the kernel is built with. -/
structure Image extends Binary where
  placed : toBinary.Placed

def envCreate (b : Binary) (priority : Word) : KernelM ℕ := do
  let r ← Prog.attempt (envAlloc 0#32)
  match r with
  | .error _ => Prog.panic .noEnv
  | .ok e => do
      modifyEnv e fun v => { v with envPri := priority, envStatus := .runnable }
      loadIcode e b
      onSchedList (.insertHead e)
      pure e

/-! ## The machine, step by step -/

/-- What can happen next: the kernel creates an env, before the first of them runs; a trap from
the running env, or the first timer interrupt; a store by the running env, to a page that it may
write. -/
inductive Event
  | create (img : Image) (priority : Word)
  | trap (tf : Trapframe)
  | store (va : Word) (b : BitVec 8)

/-- The trap frame is a timer interrupt's. -/
def Trapframe.IsTick (tf : Trapframe) : Prop := tf.cause = 0x80000000#32 ||| IRQ_S_TIMER

instance (tf : Trapframe) : Decidable tf.IsTick := inferInstanceAs (Decidable (_ = _))

/-- The events that can occur in a state. -/
def Event.Enabled (k : Kernel) : Event → Prop
  | .create _ _ => k.curenv = none
  | .trap tf => k.curenv ≠ none ∨ tf.IsTick
  | .store va _ => k.curenv ≠ none ∧ va < ULIM ∧
      ∃ d w, k.curPgdir = some d ∧ k.pm.entryAt d va = some w ∧ HasFlag w PTE_W ∧ HasFlag w PTE_U

/-- What the kernel, or a store of the running env, does. -/
def Event.prog : Event → KernelM Unit
  | .create img priority => do
      let _ ← envCreate img.toBinary priority
  | .trap tf => MosRv.trap tf
  | .store va b => do
      let d ← getCurPgdir
      let k ← Prog.get
      match k.pm.entryAt d va with
      | some w => liftPm (Prog.modify fun m => m.setByte (pteFrame w) (va.toNat % 4096) b)
      | none => pure ()

/-- The event leads from `k` to `k'`: the kernel went back to user mode. -/
def Step (k : Kernel) (ev : Event) (k' : Kernel) : Prop :=
  ev.Enabled k ∧ (ev.prog k = .ok () k' ∨ ev.prog k = .exit .popTf k')

/-- The event stops the machine. -/
def Panics (k : Kernel) (ev : Event) (p : Panic) : Prop :=
  ev.Enabled k ∧ ev.prog k = .panic p

end MosRv
