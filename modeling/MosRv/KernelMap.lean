import MosRv.Start
import MosRv.VmInit

/-!
# Free pages at their own addresses

Kernel code reaches a page at `page2kva`, which is its physical address; whatever directory is in
use, the kernel's half of it has to map that address to itself.  `riscv_vm_init` writes that half
once, into `kbasepgdir`; `env_init` copies it to `base_pgdir`, and `env_setup_vm` from there to the
directories of the envs.  Nothing writes to it later: `KernelHalf` holds of each of these
directories (`KInv.kernelHalf`, `Setups.kernelHalf`).

The entry of the devices is at `KMMIO`, 512 MiB above `KSEG0`.  With more memory than that it lies
in the middle of the map, and the pages there are out of reach (`kernelMap_iff`).
-/

namespace MosRv

/-- Under `d` every page is at its own address, no two are at one place, and none is a device. -/
structure Pmap.OwnAddresses (m : Pmap) (d : ℕ) (pages : List ℕ) : Prop where
  own : ∀ p ∈ pages, m.translate d (page2pa p) = some (page2pa p).toNat
  apart : ∀ p ∈ pages, ∀ q ∈ pages,
    m.translate d (page2pa p) = m.translate d (page2pa q) → p = q
  noDevice : ∀ p ∈ pages, ∀ pa, m.translate d (page2pa p) = some pa → ¬ InDeviceWindow pa

/-- Calls of `env_setup_vm` lead from `k` to a state; the list has the directories that they made.
-/
inductive Setups (k : Kernel) : List ℕ → Kernel → Prop
  | nil : Setups k [] k
  | cons {ds : List ℕ} {k₁ k₂ : Kernel} {e : ℕ} (h : Setups k ds k₁)
      (hrun : envSetupVm e k₁ = .ok () k₂) : Setups k ((k₂.envs e).envPgdir :: ds) k₂

/-- `k₀` is the state after boot.  In every run that follows, the pages that were free at boot are
at their own addresses under `kbasepgdir`, `base_pgdir`, the directory of every env, and every
directory that `env_setup_vm` makes. -/
structure Machine.KernelMap (mc : Machine) (k₀ : Kernel) : Prop where
  own : ∀ k, ReachesFrom k₀ (fun k ev => ev.Admissible k) k → ∀ ds k', Setups k ds k' → ∀ d,
    (d = mc.kbasepgdir ∨ d = k'.basePgdir ∨ (∃ e, k.dirs e = some d) ∨ d ∈ ds) →
      k'.pm.OwnAddresses d k₀.pm.pageFreeList
  /-- The mapping of `pages[]` ends below `UVPT`. -/
  pages : UPAGES.toNat + pagesSpan mc.npage * 4096 ≤ UVPT.toNat

/-- The kernel's half of a directory is as `riscv_vm_init` made it. -/
def Pmap.KernelHalf (m : Pmap) (memsize : Word) (d : ℕ) : Prop :=
  ∀ i, PDX KSEG0 ≤ i → i < 1024 → m.mem d i = kernelEntry memsize i

/-! ## Addresses -/

section

variable {m m' : Pmap} {memsize : Word} {d : ℕ} {pages : List ℕ}

lemma PDX_page2pa {p : ℕ} (h : p < 0x80000) : PDX (page2pa p) = 512 + p / 1024 := by
  rw [PDX_eq, page2pa_toNat h]
  omega

lemma Pmap.KernelHalf.congr (h : m.KernelHalf memsize d) (hm : m'.mem d = m.mem d) :
    m'.KernelHalf memsize d := by
  intro i hlo hhi
  rw [hm]
  exact h i hlo hhi

/-- **With at most 512 MiB**, the entry of the devices is behind the memory. -/
lemma Pmap.KernelHalf.ownAddresses (b : Board) (h : m.KernelHalf b.memsize d)
    (hle : b.memsize ≤ 0x20000000#32) (hp : ∀ p ∈ pages, p < b.npage) : m.OwnAddresses d pages := by
  have hsize := b.memsize_eq
  have hdvd := b.npage_dvd
  rw [BitVec.le_def, show (0x20000000#32).toNat = 0x20000000 by decide] at hle
  have hown : ∀ p ∈ pages, m.translate d (page2pa p) = some (page2pa p).toNat := by
    intro p hmem
    have hlt := hp p hmem
    have hpdx := PDX_page2pa (p := p) (by omega)
    apply Pmap.translate_superPte (by omega)
    rw [h (PDX (page2pa p)) (by rw [PDX_KSEG0]; omega) (PDX_lt _), kernelEntry,
      PDX_KMMIO, PDX_KSEG0,
      if_neg (by omega), if_pos]
    rw [PDX_eq (KSEG0 + b.memsize), b.toNat_bound]
    omega
  have hmax : ∀ p ∈ pages, p < 0x80000 := fun p hmem => (hp p hmem).trans_le b.npage_le
  refine ⟨hown, fun p hpm q hqm heq => ?_, fun p hpm pa hpa hdev => ?_⟩
  · rw [hown p hpm, hown q hqm, Option.some.injEq, page2pa_toNat (hmax p hpm),
      page2pa_toNat (hmax q hqm)] at heq
    omega
  · rw [hown p hpm, Option.some.injEq, page2pa_toNat (hmax p hpm)] at hpa
    unfold InDeviceWindow at hdev
    omega

/-- The page 512 MiB above `KSEG0` is where the devices are. -/
lemma Pmap.KernelHalf.translate_KMMIO (h : m.KernelHalf memsize d) :
    m.translate d (page2pa 0x20000) = some 0x10000000 := by
  have hentry : m.mem d (PDX KMMIO) = mmioPte := h (PDX KMMIO) (by decide) (PDX_lt _)
  rw [Pmap.translate_mmioPte (by decide) hentry]
  rfl

lemma Pmap.KernelHalf.not_ownAddresses (h : m.KernelHalf memsize d) (hp : 0x20000 ∈ pages) :
    ¬ m.OwnAddresses d pages := by
  intro hown
  exact hown.noDevice _ hp _ h.translate_KMMIO ⟨by decide, by decide⟩

end

/-! ## Directories of envs -/

section

variable {k k' : Kernel} {memsize : Word} {ds : List ℕ} {e : ℕ}

/-- What `env_setup_vm` leaves, where there is a page. -/
lemma envSetupVm_ok (h : envSetupVm e k = .ok () k') :
    ∃ pp rest, k.pm.pageFreeList = pp :: rest ∧ k'.pm = k.setupVm pp rest ∧
      k'.basePgdir = k.basePgdir ∧ (k'.envs e).envPgdir = pp := by
  have hwp : Prog.wp (envSetupVm e) k (fun _ k' => ∃ pp rest, k.pm.pageFreeList = pp :: rest ∧
      k'.pm = k.setupVm pp rest ∧ k'.basePgdir = k.basePgdir ∧ (k'.envs e).envPgdir = pp)
      (fun _ _ => True) (fun _ => True) := by
    unfold envSetupVm
    rw [Prog.wp_bind, wp_liftPm]
    cases hf : k.pm.pageFreeList with
    | nil =>
        rw [wp_pageAlloc_nil hf]
        trivial
    | cons pp rest =>
        rw [wp_pageAlloc_cons hf]
        simp only [Prog.wp_bind, wp_liftPm, Prog.wp_modify, wp_modifyEnv, Prog.wp_get]
        exact ⟨pp, rest, rfl, rfl, trivial, by simp⟩
  exact hwp.of_ok h

/-- What calls of `env_setup_vm` keep: the pages that are not free, and the kernel's half of the
directories that they make. -/
lemma Setups.kernelHalf (h : Setups k ds k') (hnd : k.pm.pageFreeList.Nodup)
    (hbase : k.basePgdir ∉ k.pm.pageFreeList) (hhalf : k.pm.KernelHalf memsize k.basePgdir) :
    k'.basePgdir = k.basePgdir ∧ k'.pm.pageFreeList <:+ k.pm.pageFreeList ∧
      (∀ f ∉ k.pm.pageFreeList, k'.pm.mem f = k.pm.mem f) ∧
      ∀ d ∈ ds, d ∉ k'.pm.pageFreeList ∧ k'.pm.KernelHalf memsize d := by
  induction h with
  | nil => exact ⟨rfl, List.suffix_rfl, fun _ _ => rfl, fun d hd => absurd hd List.not_mem_nil⟩
  | @cons ds k₁ k₂ e h hrun ih =>
      obtain ⟨hb, hfree, hmem, hds⟩ := ih
      obtain ⟨pp, rest, hl, hpm, hb', hpp⟩ := envSetupVm_ok hrun
      have hnd₁ : (pp :: rest).Nodup := hl ▸ hnd.sublist hfree.sublist
      have hsuffix : rest <:+ k.pm.pageFreeList := (List.suffix_cons pp rest).trans (hl ▸ hfree)
      have hppfree : pp ∈ k.pm.pageFreeList := hfree.subset (hl ▸ List.mem_cons_self)
      have hother : ∀ f, f ≠ pp → k₂.pm.mem f = k₁.pm.mem f := by
        intro f hf
        rw [hpm]
        exact setupVm_mem_of_ne hf
      have hrest : k₂.pm.pageFreeList = rest := by
        rw [hpm]
        rfl
      have hne : k₁.basePgdir ≠ pp := by
        intro hc
        rw [hb] at hc
        exact hbase (hc ▸ hppfree)
      refine ⟨hb'.trans hb, hrest ▸ hsuffix, fun f hf => ?_, fun d hd => ?_⟩
      · have hfp : f ≠ pp := fun hc => hf (hc ▸ hppfree)
        rw [hother f hfp, hmem f hf]
      · rw [hpp] at hd
        rcases List.mem_cons.mp hd with rfl | hd
        · refine ⟨hrest ▸ (List.nodup_cons.mp hnd₁).1, fun i hlo hhi => ?_⟩
          have hno : ¬ (i < PDX UTOP ∨ i = PDX UVPT) := by
            rw [PDX_KSEG0] at hlo
            rw [PDX_UTOP, PDX_UVPT]
            omega
          rw [hpm, setupVm_mem_self hne hhi, if_neg hno, hb, hmem _ hbase]
          exact hhalf i hlo hhi
        · obtain ⟨hnot, hd⟩ := hds d hd
          rw [hl, List.mem_cons, not_or] at hnot
          exact ⟨hrest ▸ hnot.2, hd.congr (hother d hnot.1)⟩

end

/-! ## The invariant -/

section

variable {mc : Machine} {T : Template} {k : Kernel} {memsize : Word} {b : ℕ} {m : Pmap}

lemma Pmap.copyWords_mem (m : Pmap) (dst src lo n f i : ℕ) : (m.copyWords dst src lo n).mem f i =
    if f = dst ∧ lo ≤ i ∧ i < lo + n then m.mem src i else m.mem f i := rfl

/-- Boot copies the kernel's half into the template directory. -/
lemma LeftByBoot.kernelHalf (h : LeftByBoot mc b m)
    (hmem : ∀ i < 1024, mc.mem mc.kbasepgdir i = kernelEntry memsize i) :
    (m.copyWords b mc.kbasepgdir (PDX KSEG0) 512).KernelHalf memsize mc.kbasepgdir ∧
      (m.copyWords b mc.kbasepgdir (PDX KSEG0) 512).KernelHalf memsize b := by
  have hlt : mc.kbasepgdir < mc.nUsed := Nat.lt_succ_self _
  have hkb := h.mem mc.kbasepgdir hlt
  have hb : mc.nUsed ≤ b := h.template.table_ge (.dir 0) b trivial rfl
  have hne : mc.kbasepgdir ≠ b := by omega
  constructor
  · intro i _ hhi
    rw [Pmap.copyWords_mem, if_neg (fun hc => hne hc.1), hkb]
    exact hmem i hhi
  · intro i hlo hhi
    rw [Pmap.copyWords_mem, if_pos ⟨rfl, hlo, by rw [PDX_KSEG0]; omega⟩, hkb]
    exact hmem i hhi

/-- A page that boot does not need is free afterwards. -/
lemma LeftByBoot.mem_free (h : LeftByBoot mc b m) {p : ℕ} (hlo : mc.nUsed ≤ p)
    (hhi : p + pagesSpan mc.npage + envsSpan + 1 < mc.npage) : p ∈ m.pageFreeList := by
  have hroom := h.room
  have hpre : m.pageFreeList.reverse <+: List.range' mc.nUsed (mc.npage - mc.nUsed) := by
    rw [← List.reverse_suffix, List.reverse_reverse]
    exact h.free
  have hlen := hpre.length_le
  rw [List.length_reverse, List.length_range'] at hlen
  rw [List.prefix_iff_eq_take, List.length_reverse, List.take_range'_of_length_ge hlen] at hpre
  rw [← List.mem_reverse, hpre, List.mem_range'_1]
  omega

/-- **In every state with the kernel invariant** the kernel's half is in `base_pgdir` and in the
directory of every env. -/
lemma KInv.kernelHalf (h : KInv T k)
    (hT : ∀ i, PDX KSEG0 ≤ i → i < 1024 → T.mem T.base i = kernelEntry memsize i) :
    k.pm.KernelHalf memsize k.basePgdir ∧ ∀ e d, k.dirs e = some d → k.pm.KernelHalf memsize d := by
  constructor
  · intro i hlo hhi
    rw [h.base_eq, h.pages.fixed T.base T.base_notMem]
    exact hT i hlo hhi
  · intro e d hd i hlo hhi
    have hge : ¬ (i < PDX UTOP ∨ i = PDX UVPT) := by
      rw [PDX_KSEG0] at hlo
      rw [PDX_UTOP, PDX_UVPT]
      omega
    have hown : T.own i = false := by
      rw [Template.own, decide_eq_false_iff_not]
      exact fun hc => hge (hc.imp_right And.right)
    rw [h.pages.template e d hd i hhi hown, Template.entry, if_neg hge]
    exact hT i hlo hhi

end

/-! ## The map of a board -/

section

variable (b : Board) {s : VmState} (h : b.vmInit b.initial = .ok () s) {k₀ : Kernel}

/-- The state after boot: a template, and the kernel's half in both directories. -/
lemma Board.boots_kernelHalf (hk : (b.machine h).Boots k₀) :
    ∃ T : Template, KInv T k₀ ∧ T.npage = b.npage ∧ T.nUsed = (b.machine h).nUsed ∧
      T.gap = true ∧ T.pool = k₀.pm.pageFreeList ∧
      (∀ i, PDX KSEG0 ≤ i → i < 1024 → T.mem T.base i = kernelEntry b.memsize i) ∧
      k₀.pm.KernelHalf b.memsize (b.machine h).kbasepgdir ∧
      ∀ p, (b.machine h).nUsed ≤ p → p + pagesSpan b.npage + envsSpan + 1 < b.npage →
        p ∈ k₀.pm.pageFreeList := by
  have hmapped := b.mapped h
  have hnp : (b.machine h).npage = b.npage := hmapped.npage_eq
  obtain ⟨dev, hrun⟩ := hk
  obtain ⟨d, m, hleft, rfl⟩ := (wp_bootProg (b.machine h) dev).of_ok hrun
  have hmem : ∀ i < 1024, (b.machine h).mem (b.machine h).kbasepgdir i =
      kernelEntry b.memsize i := by
    intro i hi
    rw [Machine.kbasepgdir, hnp]
    exact hmapped.entry i hi
  obtain ⟨hkb, hd⟩ := hleft.kernelHalf hmem
  have hbooted := hleft.booted dev true false (by decide)
  refine ⟨_, hbooted.kInv, hbooted.npage_eq.trans hnp, rfl, rfl, rfl, hd, hkb, fun p hlo hhi => ?_⟩
  exact hleft.mem_free hlo (by rw [hnp]; exact hhi)

/-- With at most 512 MiB every free page is in reach. -/
lemma Board.kernelMap_of_le (hk : (b.machine h).Boots k₀) (hle : b.memsize ≤ 0x20000000#32) :
    (b.machine h).KernelMap k₀ := by
  obtain ⟨T, hinv, hnp, hused, hgap, hpool, hT, hkb, -⟩ := b.boots_kernelHalf h hk
  refine ⟨fun k hreach ds k' hsetups d hd => ?_, ?_⟩
  · have hk := hreach.kInv hinv fun k ev hc => ⟨hc, ev.serves_of_gap hgap k⟩
    obtain ⟨hbase, hdirs⟩ := hk.kernelHalf hT
    have hfree : ∀ f, f ∉ T.pool → f ∉ k.pm.pageFreeList := fun f hf hmem =>
      hf (hk.pages.counted.free_pool f hmem)
    have hbfree : k.basePgdir ∉ k.pm.pageFreeList := hfree _ (hk.base_eq ▸ T.base_notMem)
    obtain ⟨hb', -, hmem, hds⟩ := hsetups.kernelHalf hk.pages.counted.free_nodup hbfree hbase
    have hhalf : k'.pm.KernelHalf b.memsize d := by
      rcases hd with rfl | rfl | ⟨e, he⟩ | hd
      · -- `kbasepgdir` is not in the pool, so it is as it was at boot
        have hnot : (b.machine h).kbasepgdir ∉ T.pool := by
          intro hc
          have := T.nUsed_le _ hc
          rw [hused] at this
          exact absurd this (by simp [Machine.kbasepgdir, Machine.nUsed])
        apply hkb.congr
        rw [hmem _ (hfree _ hnot), hk.pages.fixed _ hnot, hinv.pages.fixed _ hnot]
      · rw [hb']
        exact hbase.congr (hmem _ hbfree)
      · apply (hdirs e d he).congr
        apply hmem
        exact fun hc => hk.pages.counted.free_unref d hc (.dir e) he
      · exact (hds d hd).2
    apply hhalf.ownAddresses b hle
    intro p hp
    rw [← hnp]
    exact T.lt_npage p (hpool ▸ hp)
  · have hnp' : (b.machine h).npage = b.npage := (b.mapped h).npage_eq
    have hsize := b.memsize_eq
    rw [BitVec.le_def, show (0x20000000#32).toNat = 0x20000000 by decide] at hle
    rw [hnp', pagesSpan, show UPAGES.toNat = 0x7f800000 by decide,
      show UVPT.toNat = 0x7fc00000 by decide]
    omega

/-- With more, the page at `KMMIO` is free. -/
lemma Board.mem_free_of_lt (hk : (b.machine h).Boots k₀) (hlt : 0x20000000#32 < b.memsize) :
    0x20000 ∈ k₀.pm.pageFreeList ∧ k₀.pm.KernelHalf b.memsize (b.machine h).kbasepgdir := by
  obtain ⟨T, -, -, -, -, -, -, hkb, hfree⟩ := b.boots_kernelHalf h hk
  refine ⟨hfree _ ?_ ?_, hkb⟩
  · have hnp' : (b.machine h).npage = b.npage := (b.mapped h).npage_eq
    have := b.npage_le
    rw [Machine.nUsed, hnp', pagesSpan]
    omega
  · have hsize := b.memsize_eq
    have hdvd := b.npage_dvd
    rw [BitVec.lt_def, show (0x20000000#32).toNat = 0x20000000 by decide] at hlt
    rw [pagesSpan, envsSpan]
    omega

/-- It is mapped to the devices, so not to itself. -/
lemma Board.not_kernelMap_of_lt (hk : (b.machine h).Boots k₀) (hlt : 0x20000000#32 < b.memsize) :
    ¬ (b.machine h).KernelMap k₀ := by
  intro hmap
  obtain ⟨hfree, hkb⟩ := b.mem_free_of_lt h hk hlt
  exact hkb.not_ownAddresses hfree (hmap.own k₀ (.init rfl) [] k₀ .nil _ (.inl rfl))

end

/-- A board that is large enough gets through boot. -/
lemma Board.exists_boots (b : Board) (hroom : b.Room)
    (hbss : b.bssEnd + BY2PG * 16#32 ≤ KSTACKTOP) :
    ∃ (s : VmState) (h : b.vmInit b.initial = .ok () s) (k₀ : Kernel), (b.machine h).Boots k₀ := by
  obtain ⟨s, h⟩ := b.exists_vmInit hroom hbss
  obtain ⟨T, k₀, hk, -⟩ := boot_spec (b.machine h) quietDevices true false (by decide)
  exact ⟨s, h, k₀, quietDevices, hk⟩

/-- **Free pages are in reach exactly up to 512 MiB.** -/
theorem kernelMap_iff (b : Board) {s : VmState} (h : b.vmInit b.initial = .ok () s) {k₀ : Kernel}
    (hk : (b.machine h).Boots k₀) :
    (b.machine h).KernelMap k₀ ↔ b.memsize ≤ 0x20000000#32 := by
  constructor
  · intro hmap
    by_contra hgt
    exact b.not_kernelMap_of_lt h hk (BitVec.not_le.mp hgt) hmap
  · exact b.kernelMap_of_le h hk

/-- A board with nothing in memory. -/
def emptyBoard (memsize : Word) (dvd : 2 ^ 22 ∣ memsize.toNat)
    (le : memsize.toNat ≤ 2 ^ 31) : Board where
  memsize := memsize
  dvd := dvd
  le := le
  bssEnd := 0x80500000
  envsFrame := 0x400
  envs_below := by decide
  mem := fun _ _ => 0#32
  audit := false

/-- The board that the kernel is run on, with 64 MiB. -/
def board64M : Board := emptyBoard 0x4000000#32 (by decide) (by decide)

theorem kernelMap_board64M : ∃ (s : VmState) (h : board64M.vmInit board64M.initial = .ok () s)
    (k₀ : Kernel), (board64M.machine h).Boots k₀ ∧ (board64M.machine h).KernelMap k₀ := by
  obtain ⟨s, h, k₀, hk⟩ := board64M.exists_boots (by unfold Board.Room; decide) (by decide)
  exact ⟨s, h, k₀, hk, (kernelMap_iff board64M h hk).mpr (by decide)⟩

def board1G : Board := emptyBoard 0x40000000#32 (by decide) (by decide)

/-- With 1 GiB the page at `KMMIO` is free, and `kbasepgdir` leads to the devices there. -/
theorem not_kernelMap_board1G : ∃ (s : VmState) (h : board1G.vmInit board1G.initial = .ok () s)
    (k₀ : Kernel), (board1G.machine h).Boots k₀ ∧ 0x20000 ∈ k₀.pm.pageFreeList ∧
      k₀.pm.translate (board1G.machine h).kbasepgdir (page2pa 0x20000) = some 0x10000000 ∧
      ¬ (board1G.machine h).KernelMap k₀ := by
  obtain ⟨s, h, k₀, hk⟩ := board1G.exists_boots (by unfold Board.Room; decide) (by decide)
  obtain ⟨hfree, hkb⟩ := board1G.mem_free_of_lt h hk (by decide)
  refine ⟨s, h, k₀, hk, hfree, ?_, board1G.not_kernelMap_of_lt h hk (by decide)⟩
  exact hkb.translate_KMMIO

end MosRv
