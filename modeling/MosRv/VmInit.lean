import MosRv.Boot
import MosRv.Lib.ProgLoop

/-!
# The kernel's map of memory (`riscv_vm_init` in `kern/pmap.c`)

Before there is a page to allocate, the kernel takes memory with `alloc`, from `end` upwards.
`riscv_vm_init` takes `pages[]` and a page directory in this way; then it maps the memory that the
device tree reports at its own addresses, a superpage for each 4 MiB, and the devices at `KMMIO`.
Both go into one directory, and the second is written last: `kernelEntry` is what is left.

`Board` is the machine before, and `Board.machine` the `Machine` that `page_init` and `env_init`
then work on; that its page numbers are those of the pointers left by `alloc` is `Board.wp_vmInit`.

`Pmap.translate` is what the hardware makes of an address under a page directory.  The hardware
looks at all 22 bits of a page number, so a physical address may exceed 32 bits.
-/

namespace MosRv

open Prog

/-! ## Translation by the hardware -/

/-- A valid entry; that it may be written to but not read is reserved. -/
def PteOk (w : Word) : Prop := HasFlag w PTE_V ∧ (HasFlag w PTE_W → HasFlag w PTE_R)

/-- The entry maps memory; others point at a page table. -/
def IsLeaf (w : Word) : Prop := HasFlag w PTE_R ∨ HasFlag w PTE_X

instance (w : Word) : Decidable (PteOk w) := inferInstanceAs (Decidable (_ ∧ _))

instance (w : Word) : Decidable (IsLeaf w) := inferInstanceAs (Decidable (_ ∨ _))

/-- The physical address of `va` under the directory `d`, where there is one. -/
def Pmap.translate (m : Pmap) (d : ℕ) (va : Word) : Option ℕ :=
  let pde := m.mem d (PDX va)
  if ¬ PteOk pde then none
  else if IsLeaf pde then
    -- a superpage has to be aligned
    if (ptePpn pde).toNat % 1024 = 0 then
      some ((ptePpn pde).toNat / 1024 * 2 ^ 22 + va.toNat % 2 ^ 22)
    else none
  else
    let pte := m.mem (ptePpn pde - PPNOFFSET).toNat (PTX va)
    if PteOk pte ∧ IsLeaf pte then some ((ptePpn pte).toNat * 2 ^ 12 + va.toNat % 2 ^ 12) else none

/-- The physical addresses of the devices. -/
def InDeviceWindow (pa : ℕ) : Prop := 0x10000000 ≤ pa ∧ pa < 0x10400000

/-! ## The functions -/

/-- The ways `riscv_vm_init` stops the machine. -/
inductive VmPanic
  /-- `assert((u_long)(&bss_end) + BY2PG * 16 <= KSTACKTOP)`. -/
  | assertStack
  /-- `panic_on(freemem - KSEG0 >= memsize)`, in `alloc`. -/
  | outOfMemory
  /-- `PADDR2PTE`: "PPN called with invalid pa". -/
  | ppnInvalidPa
  | outOfFuel
  deriving DecidableEq

/-- The static data that boot works on before `page_init`. -/
structure VmState where
  memsize : Word
  npage : Word
  freemem : Word
  pages : Word
  kbasepgdir : Word
  satp : Word
  /-- Physical memory: frame, word position. -/
  mem : ℕ → ℕ → Word

abbrev VmM := Prog Empty VmPanic VmState

/-- `end`, as the linker script places it. -/
def END : Word := 0x80600000

namespace VmState

variable (s : VmState)

/-- `memset((void *)a, 0, n)`, for whole words. -/
def clear (a n : Word) : VmState :=
  { s with mem := fun f i =>
      if a.toNat ≤ 0x80000000 + f * 4096 + i * 4 ∧
          0x80000000 + f * 4096 + i * 4 < a.toNat + n.toNat then 0#32
      else s.mem f i }

/-- `kbasepgdir[i] = w`. -/
def setEntry (i : ℕ) (w : Word) : VmState :=
  { s with mem := fun f j => if f = frameOf s.kbasepgdir ∧ j = i then w else s.mem f j }

/-- Where the next allocation starts. -/
def start (align : Word) : Word := ROUND (if s.freemem = 0#32 then END else s.freemem) align

end VmState

/-- `riscv_detect_memory`, for the memory size that `query_mem_size` returns. -/
def riscvDetectMemory (memsize : Word) : VmM Unit :=
  modify fun s => { s with memsize := memsize, npage := memsize / BY2PG }

def alloc (n align : Word) (clear : Bool) : VmM Word := do
  let s ← get
  let allocedMem := s.start align
  modify fun s => { s with freemem := allocedMem + n }
  if s.memsize ≤ allocedMem + n - KSEG0 then panic .outOfMemory
  else do
    if clear then modify fun s => s.clear allocedMem n else pure ()
    pure allocedMem

/-- The entry that maps the superpage at `pa`. -/
def superPte (pa : Word) : Word :=
  paddr2pteBits pa ||| PTE_G ||| PTE_A ||| PTE_D ||| PTE_R ||| PTE_W ||| PTE_X ||| PTE_V

/-- The entry that maps the devices. -/
def mmioPte : Word := 0x04000000#32 ||| PTE_G ||| PTE_A ||| PTE_D ||| PTE_R ||| PTE_W ||| PTE_V

/-- `for (u_long i = KSEG0; i < KSEG0 + memsize; i += PDMAP)`. -/
def mapMemory (memsize : Word) : VmM Word :=
  whileDo .outOfFuel (fun i => i < KSEG0 + memsize)
    (fun i => do
      if i < KSEG0 then panic .ppnInvalidPa
      else do
        modify fun s => s.setEntry (PDX i) (superPte i)
        pure (i + PDMAP)) 1025 KSEG0

@[irreducible] def riscvVmInit (bssEnd : Word) : VmM Unit :=
  if bssEnd + BY2PG * 16#32 ≤ KSTACKTOP then do
    let s ← get
    let pages ← alloc (s.npage * 12#32) BY2PG true
    modify fun s => { s with pages := pages }
    let d ← alloc BY2PG BY2PG true
    modify fun s => { s with kbasepgdir := d }
    let _ ← mapMemory s.memsize
    modify fun s => s.setEntry (PDX KMMIO) mmioPte
    modify fun s => { s with satp := 0x80000000#32 ||| PPN s.kbasepgdir }
  else panic .assertStack

/-- What `riscv_vm_init` leaves at position `i` of the directory. -/
def kernelEntry (memsize : Word) (i : ℕ) : Word :=
  if i = PDX KMMIO then mmioPte
  else if PDX KSEG0 ≤ i ∧ i < PDX (KSEG0 + memsize) then superPte (BitVec.ofNat 32 (i * 2 ^ 22))
  else 0#32

/-! ## The board -/

/-- The machine at power-on.  The memory size is the one that the device tree reports. -/
structure Board where
  memsize : Word
  dvd : 2 ^ 22 ∣ memsize.toNat
  le : memsize.toNat ≤ 2 ^ 31
  bssEnd : Word
  envsFrame : ℕ
  envs_below : envsFrame + envsSpan ≤ 0x600
  mem : ℕ → ℕ → Word
  /-- See `Kernel.audit`. -/
  audit : Bool

namespace Board

variable (b : Board)

/-- The static data, zero at power-on. -/
def initial : VmState := ⟨0#32, 0#32, 0#32, 0#32, 0#32, 0#32, b.mem⟩

/-- `riscv_detect_memory(dtb); riscv_vm_init();` -/
def vmInit : VmM Unit := do
  riscvDetectMemory b.memsize
  riscvVmInit b.bssEnd

/-- The number of pages of physical memory. -/
def npage : ℕ := b.memsize.toNat / 4096

/-- The allocations of `riscv_vm_init` leave memory over. -/
def Room : Prop := 0x600 + pagesSpan b.npage + 1 < b.npage

end Board

/-! ## Arithmetic -/

lemma toNat_ROUND_BY2PG {a : Word} (h : a.toNat + 4095 < 2 ^ 32) :
    (ROUND a BY2PG).toNat = (a.toNat + 4095) / 4096 * 4096 := by
  have hsum : (a + BY2PG - 1#32).toNat = a.toNat + 4095 := by
    rw [BitVec.toNat_sub, BitVec.toNat_add, show BY2PG.toNat = 4096 by decide,
      show (1#32).toNat = 1 by decide]
    omega
  rw [ROUND, show BY2PG - 1#32 = 0xFFF#32 by decide, Bits.toNat_and_not_low low12, hsum,
    show 2 ^ 12 = 4096 by norm_num]

/-- Behind `n` bytes from page `f` on, the next page starts. -/
lemma ROUND_page {a : Word} {f n : ℕ} (h : a.toNat = 0x80000000 + f * 4096 + n)
    (hfit : f + (n + 4095) / 4096 < 0x80000) : ROUND a BY2PG = page2pa (f + (n + 4095) / 4096) := by
  rw [← BitVec.toNat_inj, toNat_ROUND_BY2PG (by omega), page2pa_toNat hfit, h]
  omega

lemma PDX_KSEG0 : PDX KSEG0 = 512 := by decide

lemma PDX_KMMIO : PDX KMMIO = 640 := by decide

lemma KSEG0_toNat : KSEG0.toNat = 0x80000000 := by decide

/-- A word that is aligned to 4 MiB is its number in the directory. -/
lemma ofNat_PDX {i : Word} (h : i.toNat % 2 ^ 22 = 0) : BitVec.ofNat 32 (PDX i * 2 ^ 22) = i := by
  rw [← BitVec.toNat_inj, BitVec.toNat_ofNat, PDX_eq]
  have := i.isLt
  omega

namespace Board

variable (b : Board)

lemma npage_le : b.npage ≤ 0x80000 := by
  have := b.le
  unfold npage
  omega

lemma memsize_eq : b.memsize.toNat = b.npage * 4096 := by
  have := b.dvd
  unfold npage
  omega

lemma npage_dvd : b.npage % 1024 = 0 := by
  have := b.dvd
  unfold npage
  omega

/-- The end of the loop of `riscv_vm_init`; with 2 GiB of memory it wraps around. -/
lemma toNat_bound : (KSEG0 + b.memsize).toNat = (0x80000000 + b.memsize.toNat) % 2 ^ 32 := by
  rw [BitVec.toNat_add, KSEG0_toNat]

end Board

/-! ## Specifications -/

section Spec

variable {s : VmState} {Q : Word → VmState → Prop} {E : Empty → VmState → Prop} {P : VmPanic → Prop}

/-- What a successful `alloc` of zeroed memory leaves. -/
def VmState.took (s : VmState) (a n : Word) : VmState := { s with freemem := a + n }.clear a n

lemma VmState.took_mem (s : VmState) (a n : Word) (f i : ℕ) : (s.took a n).mem f i =
    if a.toNat ≤ 0x80000000 + f * 4096 + i * 4 ∧
      0x80000000 + f * 4096 + i * 4 < a.toNat + n.toNat then 0#32 else s.mem f i := rfl

lemma VmState.setEntry_mem (s : VmState) (i f j : ℕ) (w : Word) : (s.setEntry i w).mem f j =
    if f = frameOf s.kbasepgdir ∧ j = i then w else s.mem f j := rfl

lemma wp_alloc {n align : Word} :
    wp (alloc n align true) s Q E P ↔
      (s.memsize ≤ s.start align + n - KSEG0 → P .outOfMemory) ∧
        (¬ s.memsize ≤ s.start align + n - KSEG0 →
          Q (s.start align) (s.took (s.start align) n)) := by
  unfold alloc
  simp only [wp_bind, wp_get, wp_modify, wp_ite, wp_panic, wp_pure, if_true]
  rfl

/-- The directory with the superpages below position `n`. -/
def VmState.mapped (s : VmState) (n : ℕ) : VmState :=
  { s with mem := fun f j =>
      if f = frameOf s.kbasepgdir ∧ PDX KSEG0 ≤ j ∧
        j < n then superPte (BitVec.ofNat 32 (j * 2 ^ 22))
      else s.mem f j }

@[simp] lemma VmState.mapped_kbasepgdir (s : VmState) (n : ℕ) :
    (s.mapped n).kbasepgdir = s.kbasepgdir := rfl

lemma VmState.mapped_mem (s : VmState) (n f j : ℕ) : (s.mapped n).mem f j =
    if f = frameOf s.kbasepgdir ∧ PDX KSEG0 ≤ j ∧ j < n then superPte (BitVec.ofNat 32 (j * 2 ^ 22))
    else s.mem f j := rfl

lemma VmState.mapped_succ (s : VmState) {n : ℕ} (h : PDX KSEG0 ≤ n) :
    (s.mapped n).setEntry n (superPte (BitVec.ofNat 32 (n * 2 ^ 22))) = s.mapped (n + 1) := by
  unfold setEntry mapped
  congr 1
  funext f j
  by_cases hf : f = frameOf s.kbasepgdir
  · by_cases hj : j = n
    · simp [hf, hj, h]
    · have hiff : j < n ↔ j < n + 1 := by omega
      simp [hf, hj, hiff]
  · simp [hf]

/-- **The loop of `riscv_vm_init`** maps what lies below `KSEG0 + memsize`. -/
lemma wp_mapMemory (b : Board) (s : VmState) :
    wp (mapMemory b.memsize) s (fun _ s' => s' = s.mapped (PDX (KSEG0 + b.memsize)))
      (fun _ _ => False) (fun _ => False) := by
  have hbound := b.toNat_bound
  have hdvd := b.dvd
  have hle := b.le
  have hend : PDX (KSEG0 + b.memsize) = (KSEG0 + b.memsize).toNat / 2 ^ 22 := PDX_eq _
  unfold mapMemory
  apply (wp_whileDo (fun i s' => i.toNat % 2 ^ 22 = 0 ∧ PDX KSEG0 ≤ PDX i ∧
    (PDX i = PDX KSEG0 ∨ PDX i ≤ PDX (KSEG0 + b.memsize)) ∧ s' = s.mapped (PDX i))
    (fun i => 1024 - PDX i) _ _ _).imp
  · intro i s' h
    obtain ⟨⟨-, hlo, hhi, rfl⟩, hi⟩ := h
    have hge : PDX (KSEG0 + b.memsize) ≤ PDX i := by
      rw [PDX_eq, PDX_eq]
      rw [BitVec.not_lt, BitVec.le_def] at hi
      exact Nat.div_le_div_right hi
    unfold VmState.mapped
    congr 1
    funext f j
    have hiff : PDX KSEG0 ≤ j ∧ j < PDX i ↔ PDX KSEG0 ≤ j ∧ j < PDX (KSEG0 + b.memsize) := by omega
    simp only [hiff]
  · intro i s' h hi
    obtain ⟨hal, hlo, -, rfl⟩ := h
    rw [BitVec.lt_def, hbound] at hi
    have hpdx : PDX i = i.toNat / 2 ^ 22 := PDX_eq i
    have hlt := i.isLt
    have hadd : (i + PDMAP).toNat = i.toNat + 2 ^ 22 := by
      rw [BitVec.toNat_add, show PDMAP.toNat = 2 ^ 22 by decide]
      omega
    have hnext : PDX (i + PDMAP) = PDX i + 1 := by
      rw [PDX_eq, hadd, hpdx]
      omega
    have hge : ¬ i < KSEG0 := by
      rw [BitVec.lt_def, KSEG0_toNat]
      rw [PDX_KSEG0] at hlo
      omega
    rw [if_neg hge, wp_bind, wp_modify, wp_pure, hnext]
    refine ⟨⟨by omega, by omega, .inr (by omega), ?_⟩, by omega⟩
    rw [← s.mapped_succ hlo, ofNat_PDX hal]
  · refine ⟨by decide, le_rfl, .inl rfl, ?_⟩
    unfold VmState.mapped
    have hnone : ∀ j, ¬ (PDX KSEG0 ≤ j ∧ j < PDX KSEG0) := fun j hj => by omega
    simp only [hnone, and_false, if_false]
  · decide

/-- What `riscv_vm_init` leaves for `page_init` and `env_init`, in terms of page numbers. -/
structure Board.Mapped (b : Board) (s : VmState) : Prop where
  room : b.Room
  npage_eq : s.npage.toNat = b.npage
  pages_eq : s.pages = page2pa Machine.pagesFrame
  kbasepgdir_eq : s.kbasepgdir = page2pa (0x600 + pagesSpan b.npage)
  /-- `PPN(ROUND(freemem, BY2PG)) - PPNOFFSET`, as `page_init` computes it. -/
  nUsed_eq : frameOf (ROUND s.freemem BY2PG) = 0x600 + pagesSpan b.npage + 1
  entry : ∀ i < 1024, s.mem (0x600 + pagesSpan b.npage) i = kernelEntry b.memsize i
  /-- The directory is in use. -/
  satp_eq : s.satp = 0x80000000#32 ||| PPN s.kbasepgdir

/-- An allocation that starts at frame `f` is out of memory exactly when it does not leave a byte.
-/
lemma alloc_check {m a n : Word} {f : ℕ} (ha : a.toNat = 0x80000000 + f * 4096)
    (hn : n.toNat ≤ 0x7FFFFFFF - f * 4096) :
    (a + n).toNat = 0x80000000 + f * 4096 + n.toNat ∧
      (m ≤ a + n - KSEG0 ↔ m.toNat ≤ f * 4096 + n.toNat) := by
  have hsum : (a + n).toNat = 0x80000000 + f * 4096 + n.toNat := by
    rw [BitVec.toNat_add, ha]
    omega
  refine ⟨hsum, ?_⟩
  rw [BitVec.le_def, BitVec.toNat_sub, hsum, KSEG0_toNat]
  omega

/-- **`riscv_vm_init`** ends in such a state, unless an allocation runs out of memory or the kernel
is too large. -/
lemma Board.wp_vmInit (b : Board) :
    wp b.vmInit b.initial (fun _ s => b.Mapped s) (fun _ _ => False)
      (fun p => (p = .assertStack ∧ ¬ b.bssEnd + BY2PG * 16#32 ≤ KSTACKTOP) ∨
        (p = .outOfMemory ∧ ¬ b.Room)) := by
  have hmax := b.npage_le
  have hsize := b.memsize_eq
  have hspan : pagesSpan b.npage = (b.npage * 12 + 4095) / 4096 := rfl
  have hnp : (b.memsize / BY2PG).toNat = b.npage := by
    rw [BitVec.toNat_udiv, show BY2PG.toNat = 4096 by decide]
    rfl
  have hbytes : (b.memsize / BY2PG * 12#32).toNat = b.npage * 12 := by
    rw [BitVec.toNat_mul, hnp, show (12#32).toNat = 12 by decide]
    omega
  unfold vmInit riscvDetectMemory riscvVmInit
  rw [wp_bind, wp_modify, wp_ite]
  refine ⟨fun _ => ?_, fun hbss => .inl ⟨rfl, hbss⟩⟩
  simp only [wp_bind, wp_get, wp_modify]
  set s₀ : VmState := { b.initial with memsize := b.memsize, npage := b.memsize / BY2PG } with hs₀
  -- `pages[]`
  have hstart : s₀.start BY2PG = page2pa 0x600 := (by decide : ROUND END BY2PG = page2pa 0x600)
  have hstart' : (page2pa 0x600).toNat = 0x80000000 + 0x600 * 4096 := page2pa_toNat (by decide)
  obtain ⟨hfree, hcheck⟩ := alloc_check (m := b.memsize) hstart'
    (show (b.memsize / BY2PG * 12#32).toNat ≤ 0x7FFFFFFF - 0x600 * 4096 by omega)
  rw [wp_alloc, hstart]
  change (b.memsize ≤ _ → _) ∧ (¬ b.memsize ≤ _ → _)
  rw [hcheck, hbytes]
  refine ⟨fun hout => .inr ⟨rfl, fun hroom => ?_⟩, fun hin => ?_⟩
  · unfold Room at hroom
    omega
  -- `kbasepgdir`
  set n := b.memsize / BY2PG * 12#32
  set s₁ : VmState := { s₀.took (page2pa 0x600) n with pages := page2pa 0x600 } with hs₁
  have hfree₁ : s₁.freemem = page2pa 0x600 + n := rfl
  have hd : (page2pa (0x600 + pagesSpan b.npage)).toNat =
      0x80000000 + (0x600 + pagesSpan b.npage) * 4096 := page2pa_toNat (by omega)
  have hstart₁ : s₁.start BY2PG = page2pa (0x600 + pagesSpan b.npage) := by
    have hne : ¬ s₁.freemem = 0#32 := by
      intro hz
      rw [hfree₁, ← BitVec.toNat_inj, hfree, BitVec.toNat_zero] at hz
      omega
    rw [VmState.start, if_neg hne, hfree₁]
    exact ROUND_page (by rw [hfree, hbytes]) (by omega)
  obtain ⟨hfree', hcheck'⟩ := alloc_check (m := b.memsize) (n := BY2PG) hd
    (show (4096 : ℕ) ≤ 0x7FFFFFFF - (0x600 + pagesSpan b.npage) * 4096 by omega)
  rw [wp_alloc, hstart₁]
  change (b.memsize ≤ _ → _) ∧ (¬ b.memsize ≤ _ → _)
  rw [hcheck', show BY2PG.toNat = 4096 by decide]
  refine ⟨fun hout => .inr ⟨rfl, fun hroom => ?_⟩, fun hin' => ?_⟩
  · unfold Room at hroom
    omega
  set d := 0x600 + pagesSpan b.npage with hd'
  set s₂ : VmState := { s₁.took (page2pa d) BY2PG with kbasepgdir := page2pa d } with hs₂
  apply (wp_mapMemory b s₂).mono _ (fun _ _ hf => hf) fun _ hp => hp.elim
  intro _ s' hs'
  subst hs'
  have hframe : frameOf (page2pa d) = d := frameOf_page2pa (by omega)
  refine ⟨?_, hnp, rfl, rfl, ?_, fun i hi => ?_, rfl⟩
  · unfold Room
    omega
  · change frameOf (ROUND (page2pa d + BY2PG) BY2PG) = d + 1
    have hlt : d + (BY2PG.toNat + 4095) / 4096 < 0x80000 := by
      rw [show BY2PG.toNat = 4096 by decide]
      omega
    rw [ROUND_page hfree' hlt, frameOf_page2pa hlt]
    rfl
  · have hzero : s₂.mem d i = 0#32 := by
      rw [hs₂, VmState.took_mem, if_pos]
      rw [hd, show BY2PG.toNat = 4096 by decide]
      omega
    have hkb : frameOf s₂.kbasepgdir = d := hframe
    change ((s₂.mapped (PDX (KSEG0 + b.memsize))).setEntry (PDX KMMIO) mmioPte).mem d i = _
    rw [VmState.setEntry_mem, VmState.mapped_kbasepgdir, VmState.mapped_mem, hkb,
      hzero, kernelEntry]
    simp only [true_and]

end Spec

/-- Where `riscv_vm_init` comes to its end, it has done its work. -/
theorem Board.mapped (b : Board) {s : VmState} (h : b.vmInit b.initial = .ok () s) : b.Mapped s :=
  b.wp_vmInit.of_ok h

/-- It does, where there is memory enough and the kernel is not too large. -/
theorem Board.exists_vmInit (b : Board) (hroom : b.Room)
    (hbss : b.bssEnd + BY2PG * 16#32 ≤ KSTACKTOP) : ∃ s, b.vmInit b.initial = .ok () s := by
  have hwp : wp b.vmInit b.initial (fun _ s => b.Mapped s) (fun _ _ => False) (fun _ => False) := by
    apply b.wp_vmInit.mono (fun _ _ h => h) (fun _ _ hf => hf)
    intro p hp
    obtain ⟨-, hn⟩ | ⟨-, hn⟩ := hp
    · exact hn hbss
    · exact hn hroom
  obtain ⟨_, s, hs, -⟩ := hwp.exists_ok
  exact ⟨s, hs⟩

/-- The machine that `page_init` finds. -/
def Board.machine (b : Board) {s : VmState} (h : b.vmInit b.initial = .ok () s) : Machine where
  npage := s.npage.toNat
  envsFrame := b.envsFrame
  mem := s.mem
  npage_le := (b.mapped h).npage_eq ▸ b.npage_le
  room := (b.mapped h).npage_eq ▸ (b.mapped h).room
  envs_below := b.envs_below
  audit := b.audit

/-! ## Addresses in the kernel's half -/

section Translate

variable {m : Pmap} {d : ℕ} {va : Word}

/-- The entry of a superpage is that of its first page. -/
lemma superPte_eq {i : ℕ} (hlo : 512 ≤ i) (hhi : i < 1024) :
    superPte (BitVec.ofNat 32 (i * 2 ^ 22)) = pteOf ((i - 512) * 1024) ||| 0xEF#32 := by
  have hpa : BitVec.ofNat 32 (i * 2 ^ 22) = page2pa ((i - 512) * 1024) := by
    rw [← BitVec.toNat_inj, BitVec.toNat_ofNat, page2pa_toNat (by omega)]
    omega
  unfold superPte
  rw [hpa]
  simp only [BitVec.or_assoc]
  rfl

lemma ptePpn_superPte {i : ℕ} (hlo : 512 ≤ i) (hhi : i < 1024) :
    (ptePpn (superPte (BitVec.ofNat 32 (i * 2 ^ 22)))).toNat = i * 1024 := by
  rw [superPte_eq hlo hhi, (ptePpn_or_iff _ _).mpr (fits_of_lt (by decide) _),
    ptePpn_pteOf_toNat (by omega)]
  omega

/-- A superpage maps its addresses to themselves. -/
lemma Pmap.translate_superPte (hva : 512 ≤ PDX va)
    (h : m.mem d (PDX va) = superPte (BitVec.ofNat 32 (PDX va * 2 ^ 22))) :
    m.translate d va = some va.toNat := by
  have hppn := ptePpn_superPte hva (PDX_lt va)
  have hok : PteOk (m.mem d (PDX va)) := by
    rw [h, superPte]
    simp [PteOk, show HasFlag PTE_R PTE_R by decide]
  have hleaf : IsLeaf (m.mem d (PDX va)) := by
    rw [h, superPte]
    simp [IsLeaf, show HasFlag PTE_R PTE_R by decide]
  rw [← h] at hppn
  unfold translate
  rw [if_neg (not_not.mpr hok), if_pos hleaf, if_pos (by omega), hppn, PDX_eq]
  congr 1
  omega

/-- The addresses from `KMMIO` on are those of the devices. -/
lemma Pmap.translate_mmioPte (hva : PDX va = PDX KMMIO) (h : m.mem d (PDX KMMIO) = mmioPte) :
    m.translate d va = some (0x10000000 + va.toNat % 2 ^ 22) := by
  unfold translate
  rw [hva, h]
  rfl

end Translate

end MosRv
