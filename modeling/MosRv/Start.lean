import MosRv.Run

/-!
# Driving the machine

How events are taken, one by one: what a system call trap does (`wp_trap_call`), how the first envs
are created and how the first of them gets to run.  `Syscall.frame` is a trap frame that asks for a
given call.

`Populated` describes the machine after `c` times `env_create` of a small program: address spaces
that are empty but for one page, and all but a few of the pages free.  `Populated.create` and
`Populated.tick` are how such a state is reached.
-/

namespace MosRv

open RefGraph Reach TailQueue

/-! ## System calls -/

namespace Syscall

/-- The number of a call and its arguments. -/
def args : Syscall → List Word
  | .putchar c => [0, c]
  | .printCons s num => [1, s, num]
  | .getenvid => [2]
  | .yield => [3]
  | .envDestroy envid => [4, envid]
  | .setTlbModEntry envid func => [5, envid, func]
  | .memAlloc envid va perm => [6, envid, va, perm]
  | .memMap srcid srcva dstid dstva perm => [7, srcid, srcva, dstid, dstva, perm]
  | .memUnmap envid va => [8, envid, va]
  | .exofork => [9]
  | .setEnvStatus envid status => [10, envid, status]
  | .setTrapframe envid tf => [11, envid, tf]
  | .panic msg => [12, msg]
  | .ipcTrySend envid value srcva perm => [13, envid, value, srcva, perm]
  | .ipcRecv dstva => [14, dstva]
  | .cgetc => [15]
  | .writeDev va value => [16, va, value]
  | .readDev va => [17, va]

/-- A trap frame that asks for the call, with the arguments from `a0` on. -/
def frame (call : Syscall) : Trapframe where
  regs r := call.args.getD (r.val - 10) 0#32
  status := 0#32
  badvaddr := 0#32
  cause := CAUSE_USER_ECALL
  epc := 0#32

lemma frame_calls (call : Syscall) : call.frame.Calls call := by
  refine ⟨rfl, ?_⟩
  cases call <;> rfl

end Syscall

section

variable {k k' : Kernel} {tf : Trapframe} {call : Syscall} {Q : Unit → Kernel → Prop}
  {E : Exit → Kernel → Prop} {P : Panic → Prop}

/-- The state in which the handler of a call starts. -/
def Kernel.entering (k : Kernel) (tf : Trapframe) : Kernel :=
  { k with ktf := { tf with epc := tf.epc + 4#32 } }

/-- The state after a handler came back with `r`. -/
def Kernel.returning (k : Kernel) (r : Word) : Kernel := { k with ktf := k.ktf.setReg 10 r }

/-- **A trap that makes a system call** runs its handler. -/
lemma wp_trap_call (hcall : tf.Calls call) :
    Prog.wp (trap tf) k Q E P ↔
      Prog.wp call.run (k.entering tf) (fun r k' => Q () (k'.returning r))
        (fun c k' => match c with
          | .code err => Q () (k'.returning (-err.toWord))
          | .popTf => E .popTf k') P := by
  obtain ⟨hcause, hsys⟩ := hcall
  rw [trap, Prog.wp_bind, Prog.wp_modify, trapsDispatch, Prog.wp_bind, Prog.wp_get]
  have hlow : ¬ (0x80000000#32 ≤ tf.cause) := by
    rw [hcause]
    decide
  rw [if_neg hlow, exceptionHandler, Prog.wp_bind, Prog.wp_get]
  simp only [hcause]
  rw [if_neg (by decide), if_pos trivial, doSyscall, Prog.wp_bind, Prog.wp_get]
  simp only [hsys, Prog.wp_bind, Prog.wp_modify, wp_callResult]
  rfl

/-- **A store fault** that is not for the env's own handler is a demand fault. -/
lemma wp_trap_storeFault {d : ℕ} (hcause : tf.cause = CAUSE_FAULT_STORE)
    (hd : k.curPgdir = some d) (hro : k.pm.readOnlyAt d tf.badvaddr = false) :
    Prog.wp (trap tf) k Q E P ↔
      Prog.wp (doTlbRefill tf.badvaddr k.satpAsid) { k with ktf := tf } Q E P := by
  rw [trap, Prog.wp_bind, Prog.wp_modify, trapsDispatch, Prog.wp_bind, Prog.wp_get]
  have hlow : ¬ (0x80000000#32 ≤ tf.cause) := by
    rw [hcause]
    decide
  rw [if_neg hlow, exceptionHandler, Prog.wp_bind, Prog.wp_get]
  simp only [hcause]
  rw [if_neg (by decide), if_neg (by decide), if_neg (by decide), if_pos trivial, Prog.wp_bind,
    wp_getCurPgdir]
  simp only [hd, Option.some.injEq, forall_eq', hro, reduceCtorEq, false_imp_iff, and_true,
    Bool.false_eq_true, if_false, normalPageFault, Prog.wp_bind, Prog.wp_get]
  rfl

/-- A demand fault at an address without a page table. -/
lemma wp_doTlbRefill_unmapped {d : ℕ} {va asid : Word} (hd : k.curPgdir = some d)
    (hwalk : k.pm.walk d va = none) :
    Prog.wp (doTlbRefill va asid) k Q E P ↔
      Prog.wp (liftPm (passiveAlloc va d asid)) k Q E P := by
  rw [doTlbRefill, Prog.wp_bind, wp_getCurPgdir]
  simp only [hd, Option.some.injEq, forall_eq', reduceCtorEq, false_imp_iff, and_true, Prog.wp_bind]
  rw [wp_liftPm, wp_pageLookup, hwalk]

/-- A trap that makes a system call and comes back to the caller. -/
lemma step_call_ok (hcur : k.curenv ≠ none) (hcall : tf.Calls call) {r : Word}
    (h : call.run (k.entering tf) = .ok r k') : Step k (.trap tf) (k'.returning r) := by
  refine ⟨.inl hcur, .inl ?_⟩
  have hwp : Prog.wp (trap tf) k (fun _ k'' => k'' = k'.returning r) (fun _ _ => False)
      (fun _ => False) := by
    rw [wp_trap_call hcall, Prog.wp, h]
  obtain ⟨u, s, hs, rfl⟩ := hwp.exists_ok
  exact hs

/-- … or one that fails. -/
lemma step_call_failed (hcur : k.curenv ≠ none) (hcall : tf.Calls call) {err : Err}
    (h : call.run (k.entering tf) = .exit (.code err) k') :
    Step k (.trap tf) (k'.returning (-err.toWord)) := by
  refine ⟨.inl hcur, .inl ?_⟩
  have hwp : Prog.wp (trap tf) k (fun _ k'' => k'' = k'.returning (-err.toWord))
      (fun _ _ => False) (fun _ => False) := by
    rw [wp_trap_call hcall, Prog.wp, h]
  obtain ⟨u, s, hs, rfl⟩ := hwp.exists_ok
  exact hs

end

/-! ## A small program -/

/-- A program of one page, whose only instruction is `ecall`. -/
def ecallBinary : Binary where
  size := 88
  byte i := ([0x7f, 0x45, 0x4c, 0x46, 1, 1, 1, 0, 0, 0, 0, 0, 0, 0, 0, 0,
    -- `e_type`, `e_machine`, `e_version`, `e_entry`, `e_phoff`
    2, 0, 0xf3, 0, 1, 0, 0, 0, 0, 0, 0x40, 0, 52, 0, 0, 0,
    -- `e_shoff`, `e_flags`, `e_ehsize`, `e_phentsize`, `e_phnum`, no sections
    0, 0, 0, 0, 0, 0, 0, 0, 52, 0, 32, 0, 1, 0, 0, 0, 0, 0, 0, 0,
    -- `p_type`, `p_offset`, `p_vaddr`, `p_paddr`
    1, 0, 0, 0, 84, 0, 0, 0, 0, 0, 0x40, 0, 0, 0, 0x40, 0,
    -- `p_filesz`, `p_memsz`, `p_flags`, `p_align`
    4, 0, 0, 0, 4, 0, 0, 0, 5, 0, 0, 0, 0, 0x10, 0, 0,
    0x73, 0, 0, 0] : List (BitVec 8)).getD i 0

/-- Where its page is mapped. -/
def ecallVa : Word := 0x400000

def ecallImage : Image where
  toBinary := ecallBinary
  placed := by
    intro i hi _
    have h0 : i = 0 := by
      have : ecallBinary.ePhnum = 1 := by decide
      omega
    subst h0
    decide

section

variable {T : Template} {k k' : Kernel} {e : ℕ} {Q : Unit → Kernel → Prop}
  {E : Exit → Kernel → Prop} {P : Panic → Prop}

/-- A segment of at most one page is one call of the mapper. -/
lemma wp_elfLoadSeg_page {ph : Phdr} {bin : ℕ → BitVec 8} {mapPage : Mapper}
    (hal : ph.pVaddr.toNat % 4096 = 0) (hpos : 0 < ph.pFilesz.toNat)
    (hfile : ph.pFilesz.toNat ≤ 4096) (hmem : ph.pMemsz.toNat ≤ 4096) :
    Prog.wp (elfLoadSeg ph bin mapPage) k Q E P ↔
      Prog.wp (mapPage (ph.pVaddr + 0#32) 0 ph.perm (some fun j => bin (0 + j))
        (min (ph.pFilesz.toNat - 0) 4096)) k Q E P := by
  have hstart : ph.start = 0 := by simp [Phdr.start, hal]
  have hone : rounds 0 ph.pFilesz.toNat = 1 := by
    rw [rounds]
    omega
  have hnone : rounds (0 + 1 * 4096) ph.pMemsz.toNat = 0 := by
    rw [rounds]
    omega
  rw [elfLoadSeg, Phdr.loadHead]
  simp only [hstart, hone, hnone, hal, ne_eq, not_true, if_false, Prog.forRange_zero, Prog.wp_bind,
    Prog.wp_pure, Prog.forRange_succ, Nat.zero_mul, Nat.add_zero]

/-- Loading the small program takes two pages at most and maps nothing else. -/
lemma KInv.wp_loadIcode_ecall (h : KInv T k) (he : (k.envs e).envStatus ≠ .free)
    (hroom : 2 ≤ k.pm.pageFreeList.length) :
    Prog.wp (loadIcode e ecallBinary) k
      (fun _ k' => KInv T k' ∧ ∃ m, k' = { k with
          pm := m
          envs := Function.update k.envs e { k.envs e with
            envTf := { (k.envs e).envTf with epc := ecallVa } } } ∧
        k.pm.pageFreeList.length ≤ m.pageFreeList.length + 2 ∧
        ∀ e' d' va, k.dirs e' = some d' → va < UTOP → ¬ (e' = e ∧ VPN va = VPN ecallVa) →
          m.entryAt d' va = k.pm.entryAt d' va)
      (fun _ _ => False) (fun _ => False) := by
  have hnum : ecallBinary.ePhnum = 1 := by decide
  have hva : (ecallBinary.phdr 0).pVaddr + 0#32 = ecallVa := by decide
  rw [loadIcode, if_pos (by decide), hnum, Prog.wp_bind, Prog.forRange_succ, Prog.wp_bind,
    Prog.forRange_zero, if_pos (by decide), panicOnK, Prog.wp_bind, Prog.wp_attempt,
    wp_elfLoadSeg_page (by decide) (by decide) (by decide) (by decide), hva]
  refine (h.wp_loadIcodeMapper he (by decide) (Phdr.perm_lt _) _ _ _).mono ?_ ?_ fun _ hp => hp
  · rintro - - ⟨h₁, m, rfl, hlen, hsame, -⟩
    exact ⟨h₁.updateEnv e Iff.rfl rfl (h₁.dstva e), m, rfl, hlen, hsame⟩
  · rintro c - ⟨-, hlt⟩
    omega

end

/-! ## The first envs -/

lemma hasFlag_shiftLeft {w : Word} {b : ℕ} (hb : b < 32) :
    HasFlag w (1#32 <<< b) ↔ w.getLsbD b = true := by
  change w &&& BitVec.twoPow 32 b ≠ 0#32 ↔ _
  rw [BitVec.and_twoPow]
  have hne : BitVec.twoPow 32 b ≠ 0#32 := by
    intro h
    have := congrArg (fun v : Word => v.getLsbD b) h
    simp [hb] at this
  cases w.getLsbD b <;> simp [hne]

/-- A set bit of the ASID bitmap, after `asid_alloc` has set another one. -/
lemma asidUsed_update (bitmap : ℕ → Word) (c i : ℕ) :
    asidUsed (Function.update bitmap (c >>> 5) (bitmap (c >>> 5) ||| (1#32 <<< (c &&& 31)))) i =
      (asidUsed bitmap i || decide (i = c)) := by
  have hand : ∀ n : ℕ, n &&& 31 = n % 32 := fun n => Nat.and_two_pow_sub_one_eq_mod n 5
  have hshift : ∀ n : ℕ, n >>> 5 = n / 32 := fun n => Nat.shiftRight_eq_div_pow n 5
  have hlt : ∀ n : ℕ, n % 32 < 32 := fun n => Nat.mod_lt n (by decide)
  simp only [asidUsed, hand, hshift, hasFlag_shiftLeft (hlt i), Bool.decide_eq_true]
  rw [Function.update_apply]
  split_ifs with hq
  · rw [BitVec.getLsbD_or, BitVec.getLsbD_shiftLeft, hq]
    congr 1
    have := hlt i
    have := hlt c
    simp only [BitVec.getLsbD_one]
    rw [Bool.eq_iff_iff]
    simp
    omega
  · have hne : i ≠ c := fun h => hq (by rw [h])
    simp [hne]
/-- `c` envs have been created from the small program, and have done nothing yet. -/
structure Populated (mc : Machine) (T : Template) (c : ℕ) (k : Kernel) : Prop where
  kInv : KInv T k
  npage_eq : T.npage = mc.npage
  nUsed_eq : T.nUsed = mc.nUsed
  free : k.envFreeList = List.range' c (NENV + 1 - c)
  unborn : ∀ e, c ≤ e → k.envs e = zeroEnv
  born : ∀ e < c, (k.envs e).envStatus = .runnable ∧ (k.envs e).envIpcRecving = 0#32 ∧
    (k.envs e).envParentId = 0#32 ∧
    (k.envs e).envId = (BitVec.ofNat 32 (e + 1) <<< (1 + LOG2NENV)) ||| BitVec.ofNat 32 e
  sched : Rep k.envSchedList (List.range c).reverse
  unlinked : ∀ e, c ≤ e → k.envSchedList.prev e = .null ∧ k.envSchedList.next e = none
  asid : ∀ i, asidUsed k.asidBitmap i = decide (i < c)
  mkenvid : k.mkenvidI = BitVec.ofNat 32 c
  room : mc.npage ≤ k.pm.pageFreeList.length + mc.nUsed + pagesSpan mc.npage + envsSpan + 1 + 3 * c
  empty : ∀ e < c, ∀ va < UTOP, VPN va ≠ VPN ecallVa → k.pm.entryAt (k.envs e).envPgdir va = none
  audit : k.audit = mc.audit

lemma Booted.curenv {mc : Machine} {dev : Devices} {T : Template} {k : Kernel}
    (h : Booted mc dev T k) : k.curenv = none := by
  rw [h.rest]
  rfl

lemma Booted.populated {mc : Machine} {dev : Devices} {T : Template} {k : Kernel}
    (h : Booted mc dev T k) : Populated mc T 0 k := by
  have hk := h.rest
  refine ⟨h.kInv, h.npage_eq, h.nUsed_eq, ?_, ?_, by simp, ?_, ?_, ?_, ?_, by simpa using h.room,
    by simp, ?_⟩
  · rw [hk, Machine.afterBoot_envFreeList, List.range_eq_range', Nat.sub_zero]
  · intro e _
    rw [hk]
    rfl
  · rw [hk]
    exact Rep.init _
  · intro e _
    rw [hk]
    exact ⟨rfl, rfl⟩
  · intro i
    rw [hk]
    simp [Machine.afterBoot, Machine.initial, asidUsed, HasFlag]
  · rw [hk]
    rfl
  · rw [hk]
    rfl

/-- No env is alive after boot. -/
lemma Machine.Boots.env_free {mc : Machine} {k : Kernel} (h : mc.Boots k) (e : ℕ) :
    (k.envs e).envStatus = .free := by
  obtain ⟨dev, T, -, -, hb⟩ := h.booted false false nofun
  rw [hb.populated.unborn e (Nat.zero_le e)]
  rfl

section

variable {mc : Machine} {T : Template} {c : ℕ} {k : Kernel}

/-- The address space of a new env is empty below `UTOP`, and nobody else's changes. -/
lemma KInv.entryAt_setupVm (h : KInv T k) {pp : ℕ} {prest : List ℕ}
    (hf : k.pm.pageFreeList = pp :: prest) :
    (∀ va < UTOP, (k.setupVm pp prest).entryAt pp va = none) ∧
      ∀ e d va, k.dirs e = some d → va < UTOP →
        (k.setupVm pp prest).entryAt d va = k.pm.entryAt d va := by
  obtain ⟨hpool, -, hunref, -⟩ := h.pages.fresh hf
  constructor
  · intro va hva
    have hbase : k.basePgdir ≠ pp := by
      rw [h.base_eq]
      exact fun hc => T.base_notMem (hc ▸ hpool)
    have hz : (k.setupVm pp prest).pde pp va = 0#32 := by
      rw [Pmap.pde, setupVm_mem_self hbase (PDX_lt va), if_pos (.inl ((lt_UTOP_iff va).mp hva))]
    rw [Pmap.entryAt, Pmap.walk, if_neg (by rw [hz]; decide)]
    rfl
  · intro e d va hd hva
    have ho : T.own (PDX va) = true := own_of_lt_UTOP hva
    rw [entryAt_eq_slotWord ho hd, entryAt_eq_slotWord ho hd]
    refine congrFun (slotWord_congr ?_) _
    rintro f ⟨s, -, hs⟩
    refine setupVm_mem_of_ne fun hc => ?_
    exact h.pages.counted.free_unref pp (by simp [hf]) s (hc ▸ hs)

/-- **One more env can be created**, as long as there is an ASID and memory. -/
lemma Populated.create (h : Populated mc T c k) (hcur : k.curenv = none) (hc : c < NASID)
    (hroom : mc.nUsed + pagesSpan mc.npage + envsSpan + 1 + 3 * (c + 1) ≤ mc.npage)
    (priority : Word) :
    ∃ k', Step k (.create ecallImage priority) k' ∧ k'.curenv = none ∧
      Populated mc T (c + 1) k' := by
  have hNASID : NASID = 64 := rfl
  have hNENV : NENV = 1024 := rfl
  have hfree : k.envFreeList = c :: List.range' (c + 1) (NENV + 1 - (c + 1)) := by
    rw [h.free, show NENV + 1 - c = NENV + 1 - (c + 1) + 1 by omega, List.range'_succ]
  have hlen := h.room
  obtain ⟨pp, prest, hf⟩ : ∃ pp prest, k.pm.pageFreeList = pp :: prest := by
    cases hf : k.pm.pageFreeList with
    | nil =>
        rw [hf, List.length_nil] at hlen
        omega
    | cons pp prest => exact ⟨pp, prest, rfl⟩
  have hasid : ((List.range NASID).find? fun i => !asidUsed k.asidBitmap i) = some c := by
    rw [List.find?_eq_some_iff_getElem]
    refine ⟨by simp [h.asid], c, by simpa using hc, by simp, fun j hj => by simp [h.asid, hj]⟩
  have hK : KInv T (k.newborn c (List.range' (c + 1) (NENV + 1 - (c + 1))) pp prest c priority) :=
    h.kInv.newborn hfree hf
  have hroom' : 2 ≤ (k.newborn c (List.range' (c + 1) (NENV + 1 - (c + 1))) pp prest c
      priority).pm.pageFreeList.length := by
    change 2 ≤ prest.length
    rw [hf, List.length_cons] at hlen
    omega
  have hwp : Prog.wp (envCreate ecallBinary priority) k
      (fun _ k' => k'.curenv = none ∧ Populated mc T (c + 1) k') (fun _ _ => False)
      (fun _ => False) := by
    rw [wp_envCreate_alloc hfree hf hasid]
    refine (hK.wp_loadIcode_ecall (e := c) (by simp [newborn_status]) hroom').mono ?_
      (fun _ _ hf => hf) fun _ hp => hp
    rintro - - ⟨h', m, rfl, hlen', hsame⟩
    have hmem : c ∉ (List.range c).reverse := by simp
    have hq := h.sched.insertHead hmem
    refine wp_onSchedList_proper (q := k.envSchedList.insertHead c) ?_ rfl ?_
    · change decide (c ∉ k.envSchedList.nodes (NENV + 1) k.envSchedList.first) = true
      rw [h.sched.nodes_eq (by rw [List.length_reverse, List.length_range]; omega),
        decide_eq_true_iff]
      exact hmem
    · have hone : BitVec.ofNat 32 c + 1#32 = BitVec.ofNat 32 (c + 1) :=
        (BitVec.ofNat_add c 1).symm
      refine ⟨hcur, h'.of_eq rfl rfl rfl rfl rfl rfl, h.npage_eq, h.nUsed_eq, rfl, ?_, ?_, ?_, ?_,
        ?_, ?_, ?_, ?_, h.audit⟩
      · intro e he
        have hec : e ≠ c := by omega
        simp only [Kernel.newborn, Function.update_of_ne hec]
        exact h.unborn e (by omega)
      · intro e he
        by_cases hec : e = c
        · subst hec
          simp [Kernel.newborn, Kernel.nextId, h.mkenvid, hone, h.unborn e le_rfl, zeroEnv]
        · simp only [Kernel.newborn, Function.update_of_ne hec]
          exact h.born e (by omega)
      · rw [List.range_succ, List.reverse_append]
        exact hq
      · intro e he
        obtain ⟨hprev, hnext⟩ := h.sched.insertHead_frame (a := c) (b :=
          e) (by simp; omega) (by omega)
        obtain ⟨hp, hn⟩ := h.unlinked e (by omega)
        exact ⟨hprev.trans hp, hnext.trans hn⟩
      · intro i
        simp only [Kernel.newborn, asidUsed_update, h.asid]
        rw [Bool.eq_iff_iff]
        simp
        omega
      · exact (congrArg (· + 1#32) h.mkenvid).trans hone
      · change prest.length ≤ _ at hlen'
        rw [hf, List.length_cons] at hlen
        change mc.npage ≤ m.pageFreeList.length + _ + _ + _ + _ + _
        omega
      · intro e he va hva hne
        have hnot : ¬ (e = c ∧ VPN va = VPN ecallVa) := fun hc => hne hc.2
        obtain ⟨hnew, hold⟩ := h.kInv.entryAt_setupVm hf
        by_cases hec : e = c
        · subst hec
          have hd := dirs_of_ne_free (k := k.newborn e (List.range' (e + 1) (NENV + 1 - (e + 1))) pp
            prest e priority) (e := e) (by simp [newborn_status])
          simp only [Kernel.newborn, Function.update_self] at hd ⊢
          rw [hsame e pp va hd hva hnot]
          exact hnew va hva
        · have hlive := dirs_of_ne_free (k := k) (e := e) (by simp [(h.born e (by omega)).1])
          have hd : (k.newborn c (List.range' (c + 1) (NENV + 1 - (c + 1))) pp prest c
              priority).dirs e = some (k.envs e).envPgdir := by
            rw [← hlive]
            simp [Kernel.dirs, Kernel.newborn, hec]
          simp only [Kernel.newborn, Function.update_of_ne hec]
          rw [hsame e _ va hd hva hnot]
          exact (hold e _ va hlive hva).trans (h.empty e (by omega) va hva hne)
  obtain ⟨e, k', hrun, hpop⟩ := hwp.exists_ok
  refine ⟨k', ⟨hcur, .inl ?_⟩, hpop⟩
  change Prog.bind (envCreate ecallBinary priority) (fun _ => pure ()) k = _
  rw [Prog.bind, hrun]
  rfl

/-- The frame of a timer interrupt. -/
def tickFrame : Trapframe := { zeroTf with cause := 0x80000000#32 ||| IRQ_S_TIMER }

/-- The state after the first timer interrupt, which lets `e` run. -/
def Kernel.started (k : Kernel) (e : ℕ) : Kernel :=
  Kernel.running { k with ktf := tickFrame, schedCount := (k.envs e).envPri - 1#32 } e

lemma Populated.wp_tick (h : Populated mc T (c + 1) k) (hcur : k.curenv = none) :
    Prog.wp (trap tickFrame) k (fun _ _ => False)
      (fun x k' => x = .popTf ∧ k' = k.started c) (fun _ => False) := by
  have hfirst : k.envSchedList.first = some c := by
    rw [h.sched.first_eq, List.range_succ, List.reverse_append]
    rfl
  rw [trap, Prog.wp_bind, Prog.wp_modify, trapsDispatch, Prog.wp_bind, Prog.wp_get,
    if_pos (show 0x80000000#32 ≤ tickFrame.cause by decide), interruptHandler, Prog.wp_bind,
    Prog.wp_get, if_pos (show tickFrame.cause &&& 0x7FFFFFFF#32 = IRQ_S_TIMER by decide), schedule,
    Prog.wp_bind, nextEnv, Prog.wp_bind, Prog.wp_get, if_pos (by simp [Kernel.curRunnable, hcur]),
    pickEnv, Prog.wp_bind, requeueCur, Prog.wp_bind, Prog.wp_get]
  simp only [hcur, Prog.wp_pure, Prog.wp_bind, Prog.wp_get, hfirst, Prog.wp_set, Prog.wp_modify]
  rw [wp_envRun]
  exact ⟨fun _ => ⟨rfl, by simp only [Kernel.started, hcur]⟩, fun hne =>
    absurd (h.born c (Nat.lt_succ_self c)).1 hne⟩

/-- **The env created last runs first.** -/
lemma Populated.tick (h : Populated mc T (c + 1) k) (hcur : k.curenv = none) :
    Step k (.trap tickFrame) (k.started c) := by
  obtain ⟨x, k', hrun, rfl, rfl⟩ := (h.wp_tick hcur).exists_exit
  exact ⟨.inr rfl, .inr hrun⟩

lemma Populated.started (h : Populated mc T (c + 1) k) (hcur : k.curenv = none) :
    Populated mc T (c + 1) (k.started c) := by
  have hsame : ∀ e, (k.started c).envs e =
      if e = c then { k.envs e with envRuns := (k.envs e).envRuns + 1#32 } else k.envs e := by
    intro e
    by_cases hec : e = c <;> simp [Kernel.started, Kernel.running, hcur, hec]
  have hrun := (h.born c (Nat.lt_succ_self c)).1
  have hbase : KInv T { k with ktf := tickFrame, schedCount := (k.envs c).envPri - 1#32 } :=
    h.kInv.of_eq rfl rfl rfl rfl rfl rfl
  refine ⟨hbase.running hrun, h.npage_eq, h.nUsed_eq, h.free, ?_, ?_, h.sched, h.unlinked, h.asid,
    h.mkenvid, h.room, ?_, h.audit⟩
  · intro e he
    rw [hsame, if_neg (by omega)]
    exact h.unborn e he
  · intro e he
    rw [hsame]
    split_ifs <;> exact h.born e he
  · intro e he va hva hne
    rw [hsame]
    split_ifs <;> exact h.empty e he va hva hne

end

/-! ## A small machine -/

/-- A machine with 64 MiB of memory. -/
def smallMachine (audit : Bool) : Machine where
  npage := 0x4000
  envsFrame := 0x500
  mem := fun _ _ => 0#32
  npage_le := by decide
  room := by decide
  envs_below := envsSpan_below
  audit := audit

/-- Devices that answer nothing. -/
def quietDevices : Devices where
  consOut := []
  consIn := []
  writes := []
  read := fun _ _ => 0#32
  void := 0#32

section

variable {C : Kernel → Event → Prop} (audit : Bool)

lemma exists_booted : ∃ T k, (smallMachine audit).Boots k ∧ T.gap = false ∧ k.curenv = none ∧
    Populated (smallMachine audit) T 0 k := by
  obtain ⟨T, k, hrun, hgap, -, hb⟩ :=
    boot_spec (smallMachine audit) quietDevices false true fun _ => rfl
  exact ⟨T, k, ⟨_, hrun⟩, hgap, hb.curenv, hb.populated⟩

lemma smallMachine_room {c : ℕ} (hc : c < NASID) :
    (smallMachine audit).nUsed + pagesSpan (smallMachine audit).npage + envsSpan + 1 + 3 * (c + 1) ≤
      (smallMachine audit).npage := by
  have hfix : (smallMachine audit).nUsed + pagesSpan (smallMachine audit).npage + envsSpan + 1 =
      1687 := by
    change 0x600 + pagesSpan 0x4000 + 1 + pagesSpan 0x4000 + 53 + 1 = 1687
    decide
  change c < 64 at hc
  change _ ≤ 0x4000
  omega

/-- Any number of envs up to 64 can be created on the small machine. -/
lemma exists_populated (hC : ∀ {T c k}, Populated (smallMachine audit) T c k → k.curenv = none →
    C k (.create ecallImage 0#32)) :
    ∀ c ≤ NASID, ∃ k₀ T k, (smallMachine audit).Boots k₀ ∧ ReachesFrom k₀ C k ∧ T.gap = false ∧
      k.curenv = none ∧ Populated (smallMachine audit) T c k
  | 0, _ => by
      obtain ⟨T, k, hk, hgap, hcur, hpop⟩ := exists_booted audit
      exact ⟨k, T, k, hk, .init rfl, hgap, hcur, hpop⟩
  | c + 1, hc => by
      obtain ⟨k₀, T, k, hk₀, hk, hgap, hcur, hpop⟩ := exists_populated hC c (by omega)
      obtain ⟨k', hstep, hcur', hpop'⟩ := hpop.create hcur hc (smallMachine_room audit hc) 0#32
      exact ⟨k₀, T, k', hk₀, hk.step ⟨hC hpop hcur, hstep⟩, hgap, hcur', hpop'⟩

/-- … and the last of them gets to run. -/
lemma exists_started (hC : ∀ {T c k}, Populated (smallMachine audit) T c k → k.curenv = none →
      C k (.create ecallImage 0#32))
    (htick : ∀ k, C k (.trap tickFrame)) {c : ℕ} (hc : c < NASID) :
    ∃ k₀ T k, (smallMachine audit).Boots k₀ ∧ ReachesFrom k₀ C k ∧ T.gap = false ∧
      k.curenv = some c ∧ Populated (smallMachine audit) T (c + 1) k := by
  obtain ⟨k₀, T, k, hk₀, hk, hgap, hcur, hpop⟩ := exists_populated audit hC (c + 1) hc
  exact ⟨k₀, T, k.started c, hk₀, hk.step ⟨htick k, hpop.tick hcur⟩, hgap, rfl, hpop.started hcur⟩

end

end MosRv
