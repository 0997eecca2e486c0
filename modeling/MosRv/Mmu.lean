import MosRv.Lib.Bits

/-!
# The memory layout and the page-table entry format (`include/mmu.h`, `include/pmap.h`)

Machine words are `BitVec 32`; `u_long` and `u_int` are both 32 bits wide on this machine.

A `struct Page *` is the index of the page in `pages[]`.  Kernel code reaches physical memory at
its own address (`page2kva` is `page2pa`), so the same index names the page's frame in memory:
`frameOf pa` is `PPN(pa) - PPNOFFSET`, computed with wrap-around as the source does, and thus a
re-indexing of all of the physical frames that puts the managed ones at `0, …, npage - 1`.

A page-table entry is a page number from bit 10 on, over ten flag bits.  `pteOf pp` is the entry
of page `pp` with no flag set.  The facts the page-table proofs use are `pteFrame_or` and
`ptePpn_or_iff`: flags OR-ed into an entry leave the page it names alone exactly when they add no
bit to the page number (`Fits`).
-/

namespace MosRv

abbrev Word := BitVec 32

/-! ## Error codes and panics -/

/-- The kernel's error codes (`include/error.h`). -/
inductive Err
  | unspecified | badEnv | inval | noMem | noSys | noFreeEnv | ipcNotRecv
  deriving DecidableEq, Repr

/-- `E_…`, as a word. -/
def Err.toWord : Err → Word
  | .unspecified => 1
  | .badEnv => 2
  | .inval => 3
  | .noMem => 4
  | .noSys => 5
  | .noFreeEnv => 6
  | .ipcNotRecv => 7

/-- The ways kernel code is left before its end: with `return -E_…`, or through `env_pop_tf`,
which resumes an env in user mode and never comes back. -/
inductive Exit
  | code (e : Err)
  | popTf
  deriving DecidableEq, Repr

/-- The places where the kernel stops the machine. -/
inductive Panic
  /-- `assert(pp->pp_ref > 0)` in `page_decref`. -/
  | assertRefPos
  /-- `assert(pp->pp_ref == 0)` in `page_free`. -/
  | assertRefZero
  /-- `PADDR2PTE`: "PPN called with invalid pa". -/
  | ppnInvalidPa
  /-- `pa2page`: "pa2page called with invalid pa". -/
  | pa2pageInvalidPa
  /-- `KADDR`: "KADDR called with invalid pa". -/
  | kaddrInvalidPa
  /-- `PADDR`: "PADDR called with invalid kva". -/
  | paddrInvalidKva
  /-- `page_insert`: "trying to map the kernel space". -/
  | mapKernelSpace
  /-- `passive_alloc`: "address too low". -/
  | addressTooLow
  /-- `passive_alloc`: "invalid memory". -/
  | invalidMemory
  /-- `passive_alloc`: "envs zone". -/
  | envsZone
  /-- `passive_alloc`: "pages zone". -/
  | pagesZone
  /-- `passive_alloc`: "kernel address". -/
  | kernelAddress
  /-- A `panic_on(expr)` whose expression returned an error. -/
  | panicOn (e : Err)
  /-- `schedule`: "No runnable env to schedule!". -/
  | noRunnable
  /-- `assert(e->env_status == ENV_RUNNABLE)` in `env_run`. -/
  | assertRunnable
  /-- `map_segment`: one of its alignment assertions. -/
  | assertAligned
  /-- `load_icode`: "bad elf". -/
  | badElf
  /-- A store through a null link, which ends in `passive_alloc`'s "address too low". -/
  | nullLink
  | listMisuse
  /-- `user_mod`: "TLB Mod but no user handler registered". -/
  | noTlbModHandler
  /-- `query_vpt`: "user querying vpt not using LW". -/
  | vptNotLw
  /-- `query_vpt`: "cur_pgdir is NULL". -/
  | vptNoPgdir
  /-- `query_vpt`: "trying to fetch kernel space vpt". -/
  | vptKernelSpace
  /-- `exception_handler`: "unknown instr". -/
  | unknownInstr
  /-- `exception_handler`: "unhandled exception". -/
  | unhandledException
  /-- `interrupt_handler`: "unhandled intr". -/
  | unhandledIntr
  /-- `sys_panic`. -/
  | sysPanic
  /-- `curenv` or `cur_pgdir` is dereferenced while it is null. -/
  | nullCurenv
  /-- `env_create` goes on with an uninitialised pointer after `env_alloc` failed. -/
  | noEnv
  /-- The kernel cannot make progress: it waits for input or retries a fault for ever. -/
  | hang
  deriving DecidableEq, Repr

/-! ## Layout -/

def BY2PG : Word := 4096
def PDMAP : Word := 4 * 1024 * 1024
def KSEG0 : Word := 0x80000000
def KMMIO : Word := 0xA0000000
def KSTACKTOP : Word := 0x80600000
def ULIM : Word := 0x80000000
def UVPT : Word := ULIM - PDMAP
def UPAGES : Word := UVPT - PDMAP
def UENVS : Word := UPAGES - PDMAP
def UTOP : Word := UENVS
def UXSTACKTOP : Word := UTOP
def USTACKTOP : Word := UTOP - 2 * BY2PG
def UTEXT : Word := PDMAP
def UCOW : Word := UTEXT - BY2PG
def UTEMP : Word := UCOW - BY2PG

def PPNOFFSET : Word := 0x80000

/-! ## Page-table entry flags -/

def PTE_V : Word := 0x001
def PTE_R : Word := 0x002
def PTE_W : Word := 0x004
def PTE_X : Word := 0x008
def PTE_U : Word := 0x010
def PTE_G : Word := 0x020
def PTE_A : Word := 0x040
def PTE_D : Word := 0x080
def PTE_COW : Word := 0x100
def PTE_LIBRARY : Word := 0x200

/-- `pte & flag`, as a condition. -/
def HasFlag (pte flag : Word) : Prop := pte &&& flag ≠ 0#32

instance (pte flag : Word) : Decidable (HasFlag pte flag) :=
  inferInstanceAs (Decidable (_ ≠ _))

/-! ## Address arithmetic -/

/-- `ROUND(a, n)`. -/
def ROUND (a n : Word) : Word := (a + n - 1#32) &&& ~~~(n - 1#32)

def PDX (va : Word) : ℕ := ((va >>> 22) &&& 0x3FF#32).toNat

def PTX (va : Word) : ℕ := ((va >>> 12) &&& 0x3FF#32).toNat

def VPN (va : Word) : Word := va >>> 12

def PPN (pa : Word) : Word := pa >>> 12

def pte2paddr (pte : Word) : Word := (pte <<< 2) &&& ~~~0xFFF#32

def pteBits (pte : Word) : Word := pte &&& 0x3FF#32

/-- `(a >> 2) & ~0x3FF`, what `PADDR2PTE` computes once its check has passed. -/
def paddr2pteBits (pa : Word) : Word := (pa >>> 2) &&& ~~~0x3FF#32

def page2ppn (pp : ℕ) : Word := BitVec.ofNat 32 pp + PPNOFFSET

def page2pa (pp : ℕ) : Word := page2ppn pp <<< 12

/-- `PPN(pa) - PPNOFFSET`. -/
def frameOf (pa : Word) : ℕ := (PPN pa - PPNOFFSET).toNat

/-- The frame a page-table or page-directory entry names. -/
def pteFrame (pte : Word) : ℕ := frameOf (pte2paddr pte)

/-- The entry of page `pp`, without flags. -/
def pteOf (pp : ℕ) : Word := paddr2pteBits (page2pa pp)

/-- The page-number field of an entry, all 22 bits of it as the hardware reads them. -/
def ptePpn (pte : Word) : Word := pte >>> 10

/-- `flags` adds no bit to the page number of `pp`. -/
def Fits (flags : Word) (pp : ℕ) : Prop := ptePpn flags &&& ~~~ptePpn (pteOf pp) = 0#32

instance (flags : Word) (pp : ℕ) : Decidable (Fits flags pp) := inferInstanceAs (Decidable (_ = _))

/-! ## Facts about addresses -/

lemma PDX_eq (va : Word) : PDX va = va.toNat / 2 ^ 22 := by
  rw [PDX, BitVec.toNat_and, BitVec.toNat_ushiftRight, Nat.shiftRight_eq_div_pow,
    show (0x3FF#32).toNat = 2 ^ 10 - 1 by rfl, Nat.and_two_pow_sub_one_eq_mod]
  have := va.isLt
  omega

lemma PTX_eq (va : Word) : PTX va = va.toNat / 2 ^ 12 % 2 ^ 10 := by
  rw [PTX, BitVec.toNat_and, BitVec.toNat_ushiftRight, Nat.shiftRight_eq_div_pow,
    show (0x3FF#32).toNat = 2 ^ 10 - 1 by rfl, Nat.and_two_pow_sub_one_eq_mod]

lemma VPN_toNat (va : Word) : (VPN va).toNat = va.toNat / 2 ^ 12 := by
  rw [VPN, BitVec.toNat_ushiftRight, Nat.shiftRight_eq_div_pow]

lemma PDX_lt (va : Word) : PDX va < 1024 := by
  have := va.isLt
  rw [PDX_eq]
  omega

lemma PTX_lt (va : Word) : PTX va < 1024 := by
  rw [PTX_eq]
  exact Nat.mod_lt _ (by norm_num)

lemma UTOP_toNat : UTOP.toNat = 0x7f400000 := by decide

lemma ULIM_toNat : ULIM.toNat = 0x80000000 := by decide

lemma PPNOFFSET_toNat : PPNOFFSET.toNat = 0x80000 := by decide

lemma PDX_UTOP : PDX UTOP = 509 := by decide

lemma PDX_UVPT : PDX UVPT = 511 := by decide

lemma PDX_ULIM : PDX ULIM = 512 := by decide

lemma lt_UTOP_iff (va : Word) : va < UTOP ↔ PDX va < PDX UTOP := by
  rw [BitVec.lt_def, UTOP_toNat, PDX_UTOP, PDX_eq]
  omega

lemma lt_ULIM_iff (va : Word) : va < ULIM ↔ PDX va < PDX ULIM := by
  rw [BitVec.lt_def, ULIM_toNat, PDX_ULIM, PDX_eq]
  omega

/-- Two addresses are on one page exactly when both table indices agree. -/
lemma VPN_eq_iff (va va' : Word) : VPN va = VPN va' ↔ PDX va = PDX va' ∧ PTX va = PTX va' := by
  rw [← BitVec.toNat_inj, VPN_toNat, VPN_toNat, PDX_eq, PDX_eq, PTX_eq, PTX_eq]
  omega

/-! ## Facts about entries -/

lemma low10 : Bits.IsLowMask 10 (0x3FF#32) := by
  unfold Bits.IsLowMask
  decide

lemma low12 : Bits.IsLowMask 12 (0xFFF#32) := by
  unfold Bits.IsLowMask
  decide

lemma page2pa_toNat {pp : ℕ} (h : pp < 0x80000) :
    (page2pa pp).toNat = 0x80000000 + pp * 4096 := by
  rw [page2pa, page2ppn, BitVec.toNat_shiftLeft, BitVec.toNat_add, BitVec.toNat_ofNat,
    PPNOFFSET_toNat, Nat.shiftLeft_eq]
  norm_num
  omega

lemma pteOf_toNat {pp : ℕ} (h : pp < 0x80000) : (pteOf pp).toNat = 0x20000000 + pp * 1024 := by
  rw [pteOf, paddr2pteBits, Bits.toNat_and_not_low low10, BitVec.toNat_ushiftRight,
    page2pa_toNat h, Nat.shiftRight_eq_div_pow]
  omega

lemma pte2paddr_toNat (pte : Word) :
    (pte2paddr pte).toNat = (ptePpn pte).toNat % 2 ^ 20 * 2 ^ 12 := by
  rw [pte2paddr, ptePpn, Bits.toNat_and_not_low low12, BitVec.toNat_shiftLeft, Nat.shiftLeft_eq,
    BitVec.toNat_ushiftRight, Nat.shiftRight_eq_div_pow]
  omega

/-- The page an entry names depends on its page-number field only. -/
lemma pteFrame_congr {pte pte' : Word} (h : ptePpn pte = ptePpn pte') :
    pteFrame pte = pteFrame pte' := by
  have hpa : pte2paddr pte = pte2paddr pte' := by
    rw [← BitVec.toNat_inj, pte2paddr_toNat, pte2paddr_toNat, h]
  rw [pteFrame, hpa, pteFrame]

lemma pte2paddr_pteOf {pp : ℕ} (h : pp < 0x80000) : pte2paddr (pteOf pp) = page2pa pp := by
  rw [← BitVec.toNat_inj, pte2paddr_toNat, ptePpn, BitVec.toNat_ushiftRight, pteOf_toNat h,
    page2pa_toNat h, Nat.shiftRight_eq_div_pow]
  omega

lemma frameOf_page2pa {pp : ℕ} (h : pp < 0x80000) : frameOf (page2pa pp) = pp := by
  rw [frameOf, PPN, BitVec.toNat_sub, BitVec.toNat_ushiftRight, page2pa_toNat h,
    PPNOFFSET_toNat, Nat.shiftRight_eq_div_pow]
  norm_num
  omega

lemma pteFrame_pteOf {pp : ℕ} (h : pp < 0x80000) : pteFrame (pteOf pp) = pp := by
  rw [pteFrame, pte2paddr_pteOf h, frameOf_page2pa h]

/-- Page numbers of distinct pages are distinct. -/
lemma ptePpn_pteOf_toNat {pp : ℕ} (h : pp < 0x80000) :
    (ptePpn (pteOf pp)).toNat = 0x80000 + pp := by
  rw [ptePpn, BitVec.toNat_ushiftRight, pteOf_toNat h, Nat.shiftRight_eq_div_pow]
  omega

/-- **Flags keep the page number exactly when they fit.** -/
lemma ptePpn_or_iff (pp : ℕ) (flags : Word) :
    ptePpn (pteOf pp ||| flags) = ptePpn (pteOf pp) ↔ Fits flags pp :=
  Bits.ushiftRight_or_eq_iff (pteOf pp) flags 10

lemma pteFrame_or {pp : ℕ} {flags : Word} (h : pp < 0x80000) (hf : Fits flags pp) :
    pteFrame (pteOf pp ||| flags) = pp := by
  rw [pteFrame_congr ((ptePpn_or_iff pp flags).mpr hf), pteFrame_pteOf h]

/-- Words below `0x400` are flags only. -/
lemma ptePpn_of_lt {flags : Word} (h : flags < 0x400) : ptePpn flags = 0#32 := by
  rw [← BitVec.toNat_inj, ptePpn, BitVec.toNat_ushiftRight, Nat.shiftRight_eq_div_pow]
  have : flags.toNat < 1024 := by simpa [BitVec.lt_def] using h
  simp [Nat.div_eq_of_lt this]

/-- Ten flag bits fit every page. -/
lemma fits_of_lt {flags : Word} (h : flags < 0x400) (pp : ℕ) : Fits flags pp := by
  rw [Fits, ptePpn_of_lt h]
  simp

/-- An entry that names page `pp` translates to its address. -/
lemma pte2paddr_of_pteFrame {pte : Word} {pp : ℕ} (h : pteFrame pte = pp) (hpp : pp < 0x80000) :
    pte2paddr pte = page2pa pp := by
  have hlow := pte2paddr_toNat pte
  rw [pteFrame, frameOf, PPN, BitVec.toNat_sub, BitVec.toNat_ushiftRight, PPNOFFSET_toNat,
    Nat.shiftRight_eq_div_pow] at h
  rw [← BitVec.toNat_inj, page2pa_toNat hpp]
  have := (pte2paddr pte).isLt
  omega

/-- Replacing the ten flag bits of a word keeps its page number … -/
lemma pteFrame_reflag (x : Word) {flags : Word} (h : flags < 0x400) :
    pteFrame ((x &&& ~~~0x3FF#32) ||| flags) = pteFrame x := by
  apply pteFrame_congr
  rw [ptePpn, BitVec.ushiftRight_or_distrib, Bits.ushiftRight_and_not_low low10, ← ptePpn,
    ← ptePpn, ptePpn_of_lt h, BitVec.or_zero]

/-- … and sets them. -/
lemma pteBits_reflag (x : Word) {flags : Word} (h : flags < 0x400) :
    pteBits ((x &&& ~~~0x3FF#32) ||| flags) = flags := by
  have hz : flags >>> 10 = 0#32 := ptePpn_of_lt h
  apply BitVec.eq_of_getLsbD_eq
  intro i hi
  rw [pteBits, BitVec.getLsbD_and, BitVec.getLsbD_or, BitVec.getLsbD_and, BitVec.getLsbD_not,
    low10 i hi]
  by_cases hlow : i < 10
  · simp [hlow]
  · have hbit := congrArg (fun z => z.getLsbD (i - 10)) hz
    simp only [BitVec.getLsbD_ushiftRight, BitVec.getLsbD_zero,
      show 10 + (i - 10) = i by omega] at hbit
    simp [hlow, hbit]

end MosRv
