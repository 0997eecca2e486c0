import MosRv.Kernel

/-!
# Trap entry and return (`include/stackframe.h`)

The processor enters the kernel in `SAVE_ALL` with the registers of whoever was running.  `SAVE_ALL`
takes a negative `sp` for a kernel stack that it goes on using and else starts at `KSTACKTOP`;
`RESTORE_ALL` puts the registers back from the frame.

`sp` is a value of the program's own.  The frame is where the kernel looks for it exactly when the
program's `sp` is not negative (`save_restore_iff`).
-/

namespace MosRv

/-! ## The instructions -/

/-- The control and status registers that the entry code uses. -/
inductive Csr
  | sscratch
  | sstatus
  | scause
  | sepc
  | sbadaddr
  deriving DecidableEq, Repr

/-- The processor and the memory that the kernel's loads and stores reach. -/
structure Cpu where
  x : Fin 32 → Word
  csr : Csr → Word
  mem : Word → BitVec 8

namespace Cpu

/-- Register `r`; `x0` is 0. -/
def reg (c : Cpu) (r : Fin 32) : Word := if r = 0 then 0 else c.x r

def setReg (c : Cpu) (r : Fin 32) (w : Word) : Cpu := { c with x := Function.update c.x r w }

def setCsr (c : Cpu) (s : Csr) (w : Word) : Cpu := { c with csr := Function.update c.csr s w }

/-- The four bytes of `w` at `va`. -/
def store (m : Word → BitVec 8) (va w : Word) : Word → BitVec 8 := fun a =>
  if (a - va).toNat < 4 then Bits.byte w (a - va).toNat else m a

def load (m : Word → BitVec 8) (va : Word) : Word := m (va + 3) ++ m (va + 2) ++ m (va + 1) ++ m va

end Cpu

/-- The instructions of the entry code. -/
inductive Instr
  | csrw (s : Csr) (rs : Fin 32)
  | csrr (rd : Fin 32) (s : Csr)
  | bltz (rs : Fin 32) (skip : ℕ)
  | li (rd : Fin 32) (imm : Word)
  | addi (rd rs : Fin 32) (imm : Word)
  | sw (rs : Fin 32) (off : ℕ) (base : Fin 32)
  | lw (rd : Fin 32) (off : ℕ) (base : Fin 32)

namespace Instr

/-- What an instruction does to registers and memory. -/
def exec (c : Cpu) : Instr → Cpu
  | csrw s rs => c.setCsr s (c.reg rs)
  | csrr rd s => c.setReg rd (c.csr s)
  | bltz _ _ => c
  | li rd imm => c.setReg rd imm
  | addi rd rs imm => c.setReg rd (c.reg rs + imm)
  | sw rs off base =>
      { c with mem := Cpu.store c.mem (c.reg base + BitVec.ofNat 32 off) (c.reg rs) }
  | lw rd off base => c.setReg rd (Cpu.load c.mem (c.reg base + BitVec.ofNat 32 off))

/-- The number of instructions that a branch passes over. -/
def skips (c : Cpu) : Instr → ℕ
  | bltz rs skip => if (c.reg rs).toInt < 0 then skip else 0
  | _ => 0

end Instr

/-- A run, which passes over the next `n` instructions. -/
def runFrom : ℕ → List Instr → Cpu → Cpu
  | _, [], c => c
  | n + 1, _ :: is, c => runFrom n is c
  | 0, i :: is, c => runFrom (i.skips c) is (i.exec c)

def run (is : List Instr) (c : Cpu) : Cpu := runFrom 0 is c

/-! ## The frame -/

/-- `TF_REGi`. -/
def TF_REG (i : ℕ) : ℕ := 4 * i

def TF_STATUS : ℕ := TF_REG 31 + 4
def TF_BADVADDR : ℕ := TF_STATUS + 4
def TF_CAUSE : ℕ := TF_BADVADDR + 4
def TF_EPC : ℕ := TF_CAUSE + 4

namespace Instr

def sp : Fin 32 := 2
def t0 : Fin 32 := 5
def t1 : Fin 32 := 6

end Instr

open Instr in
def SAVE_ALL : List Instr := [
  csrw .sscratch sp,
  bltz sp 1,
  li sp KSTACKTOP,
  addi sp sp (-BitVec.ofNat 32 TF_SIZE),
  sw 0 (TF_REG 0) sp,
  sw 1 (TF_REG 1) sp,
  sw 3 (TF_REG 3) sp,
  sw 4 (TF_REG 4) sp,
  sw 5 (TF_REG 5) sp,
  sw 6 (TF_REG 6) sp,
  sw 7 (TF_REG 7) sp,
  sw 8 (TF_REG 8) sp,
  sw 9 (TF_REG 9) sp,
  sw 10 (TF_REG 10) sp,
  sw 11 (TF_REG 11) sp,
  sw 12 (TF_REG 12) sp,
  sw 13 (TF_REG 13) sp,
  sw 14 (TF_REG 14) sp,
  sw 15 (TF_REG 15) sp,
  sw 16 (TF_REG 16) sp,
  sw 17 (TF_REG 17) sp,
  sw 18 (TF_REG 18) sp,
  sw 19 (TF_REG 19) sp,
  sw 20 (TF_REG 20) sp,
  sw 21 (TF_REG 21) sp,
  sw 22 (TF_REG 22) sp,
  sw 23 (TF_REG 23) sp,
  sw 24 (TF_REG 24) sp,
  sw 25 (TF_REG 25) sp,
  sw 26 (TF_REG 26) sp,
  sw 27 (TF_REG 27) sp,
  sw 28 (TF_REG 28) sp,
  sw 29 (TF_REG 29) sp,
  sw 30 (TF_REG 30) sp,
  sw 31 (TF_REG 31) sp,
  csrr t0 .sscratch,
  sw t0 (TF_REG 2) sp,
  csrr t0 .sstatus,
  sw t0 TF_STATUS sp,
  csrr t0 .scause,
  sw t0 TF_CAUSE sp,
  csrr t0 .sepc,
  sw t0 TF_EPC sp,
  csrr t0 .sbadaddr,
  sw t0 TF_BADVADDR sp]

open Instr in
def RESTORE_ALL : List Instr := [
  lw t1 TF_EPC sp,
  csrw .sepc t1,
  lw 31 (TF_REG 31) sp,
  lw 30 (TF_REG 30) sp,
  lw 29 (TF_REG 29) sp,
  lw 28 (TF_REG 28) sp,
  lw 27 (TF_REG 27) sp,
  lw 26 (TF_REG 26) sp,
  lw 25 (TF_REG 25) sp,
  lw 24 (TF_REG 24) sp,
  lw 23 (TF_REG 23) sp,
  lw 22 (TF_REG 22) sp,
  lw 21 (TF_REG 21) sp,
  lw 20 (TF_REG 20) sp,
  lw 19 (TF_REG 19) sp,
  lw 18 (TF_REG 18) sp,
  lw 17 (TF_REG 17) sp,
  lw 16 (TF_REG 16) sp,
  lw 15 (TF_REG 15) sp,
  lw 14 (TF_REG 14) sp,
  lw 13 (TF_REG 13) sp,
  lw 12 (TF_REG 12) sp,
  lw 11 (TF_REG 11) sp,
  lw 10 (TF_REG 10) sp,
  lw 9 (TF_REG 9) sp,
  lw 8 (TF_REG 8) sp,
  lw 7 (TF_REG 7) sp,
  lw 6 (TF_REG 6) sp,
  lw 5 (TF_REG 5) sp,
  lw 4 (TF_REG 4) sp,
  lw 3 (TF_REG 3) sp,
  lw 1 (TF_REG 1) sp,
  lw 2 (TF_REG 2) sp]

namespace Cpu

/-- `(struct Trapframe *)KSTACKTOP - 1`. -/
def frameTop : Word := KSTACKTOP - BitVec.ofNat 32 TF_SIZE

/-- The frame of a trap that is taken in the state `c`. -/
def frame (c : Cpu) : Trapframe where
  regs := c.reg
  status := c.csr .sstatus
  badvaddr := c.csr .sbadaddr
  cause := c.csr .scause
  epc := c.csr .sepc

/-- **The frame is stored below `KSTACKTOP`**, word for word as `struct Trapframe` lays it out, and
nothing else is. -/
structure Saved (c c' : Cpu) : Prop where
  word : ∀ i < 36, load c'.mem (frameTop + BitVec.ofNat 32 (4 * i)) = c.frame.word i
  rest : ∀ a, ¬ (frameTop ≤ a ∧ a < KSTACKTOP) → c'.mem a = c.mem a

/-- `c₂` is at the stack pointer of `c₁` and has its frame; the handler may have left anything else.
-/
def SameFrame (c₁ c₂ : Cpu) : Prop :=
  c₂.reg Instr.sp = c₁.reg Instr.sp ∧ ∀ a, (a - c₁.reg Instr.sp).toNat < TF_SIZE →
    c₂.mem a = c₁.mem a

/-- The general registers and `epc` are those of `c`. -/
def Resumed (c c' : Cpu) : Prop := c'.reg = c.reg ∧ c'.csr .sepc = c.csr .sepc

end Cpu

/-! ## Runs of loads and stores -/

section

open Instr (sp t0 t1)

variable {c c₁ c₂ : Cpu} {tf : Trapframe} {b : Word} {m : Word → BitVec 8} {done : List ℕ} {i : ℕ}

/-- Only a branch passes over instructions. -/
def Instr.Straight : Instr → Prop
  | .bltz _ _ => False
  | _ => True

lemma runFrom_cons {i : Instr} (h : i.Straight) (is : List Instr) (c : Cpu) :
    run (i :: is) c = run is (i.exec c) := by
  cases i <;> first | rfl | exact h.elim

lemma run_append {is : List Instr} (h : ∀ i ∈ is, i.Straight) (js : List Instr) (c : Cpu) :
    run (is ++ js) c = run js (run is c) := by
  induction is generalizing c with
  | nil => rfl
  | cons i is ih =>
      obtain ⟨hi, his⟩ := List.forall_mem_cons.mp h
      rw [List.cons_append, runFrom_cons hi, runFrom_cons hi, ih his]

namespace Cpu

@[simp] lemma reg_zero (c : Cpu) : c.reg 0 = 0 := rfl

lemma reg_setReg (c : Cpu) {r : Fin 32} (hr : r ≠ 0) (w : Word) (r' : Fin 32) :
    (c.setReg r w).reg r' = if r' = r then w else c.reg r' := by
  simp only [reg, setReg, Function.update_apply]
  by_cases h : r' = 0
  · rw [if_pos h, if_pos h, if_neg (h ▸ hr.symm)]
  · rw [if_neg h, if_neg h]

@[simp] lemma setReg_mem (c : Cpu) (r : Fin 32) (w : Word) : (c.setReg r w).mem = c.mem := rfl
@[simp] lemma setReg_csr (c : Cpu) (r : Fin 32) (w : Word) : (c.setReg r w).csr = c.csr := rfl

/-- The memory `m` with the words of the frame `tf` at `b` that are numbered in `done`. -/
def frameIn (tf : Trapframe) (b : Word) (done : List ℕ) (m : Word → BitVec 8) : Word → BitVec 8 :=
  fun a => if (a - b).toNat < TF_SIZE ∧ (a - b).toNat / 4 ∈ done then
    Bits.byte (tf.word ((a - b).toNat / 4)) ((a - b).toNat % 4) else m a

lemma frameIn_nil : frameIn tf b [] m = m := by
  funext a
  simp [frameIn]

lemma sub_add_toNat (a b : Word) (hi : i < 36) :
    (a - (b + BitVec.ofNat 32 (4 * i))).toNat = ((a - b).toNat + 2 ^ 32 - 4 * i) % 2 ^ 32 := by
  have ha := a.isLt
  have hb := b.isLt
  rw [BitVec.toNat_sub, BitVec.toNat_sub, BitVec.toNat_add, BitVec.toNat_ofNat]
  omega

/-- One more word of the frame. -/
lemma store_frameIn (hi : i < 36) :
    store (frameIn tf b done m) (b + BitVec.ofNat 32 (4 * i)) (tf.word i) =
      frameIn tf b (i :: done) m := by
  funext a
  have hlt := (a - b).isLt
  rw [store, sub_add_toNat a b hi, frameIn, frameIn, TF_SIZE]
  generalize (a - b).toNat = o at *
  by_cases h : 4 * i ≤ o ∧ o < 4 * i + 4
  · have ho : o / 4 = i := by omega
    have hmod : (o + 2 ^ 32 - 4 * i) % 2 ^ 32 = o % 4 := by omega
    rw [hmod, if_pos (by omega), ho, if_pos ⟨by omega, List.mem_cons_self⟩]
  · rw [if_neg (by omega)]
    by_cases hin : o < 144 ∧ o / 4 ∈ done
    · rw [if_pos hin, if_pos ⟨hin.1, List.mem_cons_of_mem _ hin.2⟩]
    · rw [if_neg hin, if_neg]
      rintro ⟨hlt, hmem⟩
      obtain rfl | hmem := List.mem_cons.mp hmem
      · exact h ⟨by omega, by omega⟩
      · exact hin ⟨hlt, hmem⟩

/-- A load takes four bytes. -/
lemma load_eq (m : Word → BitVec 8) (va : Word) : load m va = m (va + BitVec.ofNat 32 3) ++
    m (va + BitVec.ofNat 32 2) ++ m (va + BitVec.ofNat 32 1) ++ m (va + BitVec.ofNat 32 0) := by
  rw [BitVec.add_zero]
  rfl

lemma byte_load {j : ℕ} (hj : j < 4) (m : Word → BitVec 8) (va : Word) :
    Bits.byte (load m va) j = m (va + BitVec.ofNat 32 j) := by
  rw [load_eq, Bits.byte_append hj]
  obtain rfl | rfl | rfl | rfl : j = 0 ∨ j = 1 ∨ j = 2 ∨ j = 3 := by omega
  all_goals rfl

/-- A word of the frame, read back. -/
lemma load_frameIn (hi : i < 36) (hmem : i ∈ done) :
    load (frameIn tf b done m) (b + BitVec.ofNat 32 (4 * i)) = tf.word i := by
  have hbyte : ∀ j < 4, frameIn tf b done m (b + BitVec.ofNat 32 (4 * i) + BitVec.ofNat 32 j) =
      Bits.byte (tf.word i) j := by
    intro j hj
    have ho : (b + BitVec.ofNat 32 (4 * i) + BitVec.ofNat 32 j - b).toNat = 4 * i + j := by
      have hb := b.isLt
      rw [BitVec.toNat_sub, BitVec.toNat_add, BitVec.toNat_add, BitVec.toNat_ofNat,
        BitVec.toNat_ofNat]
      omega
    rw [frameIn, ho, show (4 * i + j) / 4 = i by omega, show (4 * i + j) % 4 = j by omega,
      if_pos ⟨by rw [TF_SIZE]; omega, hmem⟩]
  rw [load_eq, hbyte 0 (by decide), hbyte 1 (by decide), hbyte 2 (by decide), hbyte 3 (by decide),
    Bits.bytes_append]

/-- The stores of `SAVE_ALL` of registers that are still what they were. -/
lemma run_sws (rs : List (Fin 32)) (hsp : c.reg sp = b) (hregs : ∀ r ∈ rs, c.reg r = tf.regs r)
    (hmem : c.mem = frameIn tf b done m) :
    run (rs.map fun r => .sw r (TF_REG r) sp) c =
      { c with mem := frameIn tf b ((rs.map Fin.val).reverse ++ done) m } := by
  induction rs generalizing c done with
  | nil => rw [List.map_nil, List.map_nil, List.reverse_nil, List.nil_append, ← hmem]; rfl
  | cons r rs ih =>
      obtain ⟨hr, hrs⟩ := List.forall_mem_cons.mp hregs
      have hstore : Instr.exec c (.sw r (TF_REG r) sp) =
          { c with mem := frameIn tf b (r.val :: done) m } := by
        have hword : tf.word r.val = c.reg r := by
          rw [hr, Trapframe.word, dif_pos r.isLt]
        rw [Instr.exec, hsp, hmem, TF_REG, ← hword, store_frameIn (by omega)]
      have hrest := ih (c := { c with mem := frameIn tf b (r.val :: done) m }) hsp hrs rfl
      have hstraight : Instr.Straight (.sw r (TF_REG r) sp) := trivial
      rw [List.map_cons, runFrom_cons hstraight, hstore, hrest, List.map_cons, List.reverse_cons,
        List.append_assoc, List.singleton_append]

/-! ## `SAVE_ALL` -/

/-- The stack pointer at which `SAVE_ALL` starts. -/
def entrySp (c : Cpu) : Word := if (c.reg sp).toInt < 0 then c.reg sp else KSTACKTOP

/-- `SAVE_ALL` has stored the words `done` of the frame; the words that come from control and status
registers are still there. -/
structure Saving (tf : Trapframe) (b : Word) (m : Word → BitVec 8) (done : List ℕ) (c : Cpu) :
    Prop where
  sp_eq : c.reg sp = b
  mem_eq : c.mem = frameIn tf b done m
  sscratch : c.csr .sscratch = tf.word 2
  sstatus : c.csr .sstatus = tf.word 32
  sbadaddr : c.csr .sbadaddr = tf.word 33
  scause : c.csr .scause = tf.word 34
  sepc : c.csr .sepc = tf.word 35

/-- `csrr t0, s` and `sw t0, 4 * i(sp)`. -/
def saveCsr (s : Csr) (i : ℕ) : List Instr := [.csrr t0 s, .sw t0 (4 * i) sp]

lemma Saving.csr (h : Saving tf b m done c) {s : Csr} (hs : c.csr s = tf.word i) (hi : i < 36) :
    Saving tf b m (i :: done) (run (saveCsr s i) c) := by
  have hsp : (c.setReg t0 (c.csr s)).reg sp = b := by
    rw [reg_setReg _ (by decide), if_neg (by decide), h.sp_eq]
  refine ⟨hsp, ?_, h.sscratch, h.sstatus, h.sbadaddr, h.scause, h.sepc⟩
  have hmem : (run (saveCsr s i) c).mem =
      store c.mem ((c.setReg t0 (c.csr s)).reg sp + BitVec.ofNat 32 (4 * i))
        ((c.setReg t0 (c.csr s)).reg t0) := rfl
  rw [hmem, hsp, reg_setReg _ (by decide), if_pos rfl, h.mem_eq, hs, store_frameIn hi]

/-- The registers that `SAVE_ALL` stores as they are. -/
def savedRegs : List (Fin 32) :=
  [0, 1, 3, 4, 5, 6, 7, 8, 9, 10, 11, 12, 13, 14, 15, 16, 17, 18, 19, 20, 21, 22,
    23, 24, 25, 26, 27,
    28, 29, 30, 31]

/-- The first four instructions. -/
def switchStack : List Instr :=
  [.csrw .sscratch sp, .bltz sp 1, .li sp KSTACKTOP, .addi sp sp (-BitVec.ofNat 32 TF_SIZE)]

lemma SAVE_ALL_eq : SAVE_ALL = switchStack ++ (savedRegs.map (fun r => .sw r (TF_REG r) sp) ++
    (saveCsr .sscratch 2 ++ (saveCsr .sstatus 32 ++ (saveCsr .scause 34 ++
      (saveCsr .sepc 35 ++ saveCsr .sbadaddr 33))))) := rfl

/-- The words of the frame, in the order in which they are stored. -/
def savedWords : List ℕ := 33 :: 35 :: 34 :: 32 :: 2 :: ((savedRegs.map Fin.val).reverse ++ [])

/-- The state after them. -/
def prologue (c : Cpu) : Cpu :=
  (c.setCsr .sscratch (c.reg sp)).setReg sp (c.entrySp - BitVec.ofNat 32 TF_SIZE)

lemma run_switchStack (c : Cpu) (is : List Instr) :
    run (switchStack ++ is) c = run is c.prologue := by
  have hset : ∀ (c : Cpu) (v w : Word), (c.setReg sp v).setReg sp w = c.setReg sp w := by
    intro c v w
    simp only [setReg, Function.update_idem]
  by_cases h : (c.reg sp).toInt < 0
  · have hskip : Instr.skips (c.setCsr .sscratch (c.reg sp)) (.bltz sp 1) = 1 := if_pos h
    have hrun : run (switchStack ++ is) c = run is ((c.setCsr .sscratch (c.reg sp)).setReg sp
          (c.reg sp + -BitVec.ofNat 32 TF_SIZE)) := by
      change runFrom (Instr.skips (c.setCsr .sscratch (c.reg sp)) (.bltz sp 1)) _ _ = _
      rw [hskip]
      rfl
    rw [hrun, prologue, entrySp, if_pos h, BitVec.sub_eq_add_neg]
  · have hskip : Instr.skips (c.setCsr .sscratch (c.reg sp)) (.bltz sp 1) = 0 := if_neg h
    have hrun : run (switchStack ++ is) c = run is
      (((c.setCsr .sscratch (c.reg sp)).setReg sp KSTACKTOP).setReg sp
          (KSTACKTOP + -BitVec.ofNat 32 TF_SIZE)) := by
      change runFrom (Instr.skips (c.setCsr .sscratch (c.reg sp)) (.bltz sp 1)) _ _ = _
      rw [hskip]
      rfl
    rw [hrun, hset, prologue, entrySp, if_neg h, BitVec.sub_eq_add_neg]

/-- **What `SAVE_ALL` does.** -/
lemma saving_saveAll (c : Cpu) :
    Saving c.frame (c.entrySp - BitVec.ofNat 32 TF_SIZE) c.mem savedWords
    (run SAVE_ALL c) := by
  have hstraight : ∀ i ∈ savedRegs.map fun r => Instr.sw r (TF_REG r) sp, i.Straight := by
    intro i hi
    obtain ⟨r, -, rfl⟩ := List.mem_map.mp hi
    trivial
  have hpair : ∀ (s : Csr) (n : ℕ), ∀ i ∈ saveCsr s n, i.Straight := by
    intro s n i hi
    obtain rfl | hi := List.mem_cons.mp hi
    · trivial
    · rw [List.mem_singleton.mp hi]
      trivial
  rw [SAVE_ALL_eq, run_switchStack, run_append hstraight, run_append (hpair _ _),
    run_append (hpair _ _), run_append (hpair _ _), run_append (hpair _ _)]
  set b := c.entrySp - BitVec.ofNat 32 TF_SIZE with hb
  have hsp : c.prologue.reg sp = b := by
    rw [prologue, reg_setReg _ (by decide), if_pos rfl]
  have hregs : ∀ r ∈ savedRegs, c.prologue.reg r = c.frame.regs r := by
    intro r hr
    have hne : r ≠ sp := by
      rintro rfl
      exact absurd hr (by decide)
    rw [prologue, reg_setReg _ (by decide), if_neg hne]
    rfl
  have hmem : c.prologue.mem = frameIn c.frame b [] c.mem := by
    rw [frameIn_nil]
    rfl
  have h₀ : Saving c.frame b c.mem ((savedRegs.map Fin.val).reverse ++ [])
      (run (savedRegs.map fun r => .sw r (TF_REG r) sp) c.prologue) := by
    rw [run_sws savedRegs hsp hregs hmem]
    exact ⟨hsp, rfl, rfl, rfl, rfl, rfl, rfl⟩
  have h₁ := h₀.csr h₀.sscratch (by decide)
  have h₂ := h₁.csr h₁.sstatus (by decide)
  have h₃ := h₂.csr h₂.scause (by decide)
  have h₄ := h₃.csr h₃.sepc (by decide)
  exact h₄.csr h₄.sbadaddr (by decide)

lemma mem_savedWords (hi : i < 36) : i ∈ savedWords := by
  have hall : ∀ i < 36, i ∈ savedWords := by decide
  exact hall i hi

/-! ## `RESTORE_ALL` -/

lemma load_congr {m' : Word → BitVec 8} (h : ∀ a, (a - b).toNat < TF_SIZE → m' a = m a)
    (hi : i < 36) :
    load m' (b + BitVec.ofNat 32 (4 * i)) = load m (b + BitVec.ofNat 32 (4 * i)) := by
  have hbyte : ∀ j : ℕ, j < 4 → m' (b + BitVec.ofNat 32 (4 * i) + BitVec.ofNat 32 j) =
      m (b + BitVec.ofNat 32 (4 * i) + BitVec.ofNat 32 j) := by
    intro j hj
    refine h _ ?_
    have hb := b.isLt
    rw [BitVec.toNat_sub, BitVec.toNat_add, BitVec.toNat_add, BitVec.toNat_ofNat,
      BitVec.toNat_ofNat, TF_SIZE]
    omega
  rw [load_eq, load_eq, hbyte 0 (by decide), hbyte 1 (by decide), hbyte 2 (by decide),
    hbyte 3 (by decide)]

/-- The loads of `RESTORE_ALL`. -/
lemma run_lws (rs : List (Fin 32)) (hsp : c.reg sp = b) (hrs : 0 ∉ rs ∧ sp ∉ rs)
    (hmem : ∀ i < 36, load c.mem (b + BitVec.ofNat 32 (4 * i)) = tf.word i) :
    (run (rs.map fun r => .lw r (TF_REG r) sp) c).mem = c.mem ∧
    (run (rs.map fun r => .lw r (TF_REG r) sp) c).csr = c.csr ∧
    ∀ r, (run (rs.map fun r => .lw r (TF_REG r) sp) c).reg r =
      if r ∈ rs then tf.regs r else c.reg r := by
  induction rs generalizing c with
  | nil => exact ⟨rfl, rfl, fun _ => rfl⟩
  | cons r rs ih =>
      simp only [List.mem_cons, not_or] at hrs
      have hload : Instr.exec c (.lw r (TF_REG r) sp) = c.setReg r (tf.regs r) := by
        rw [Instr.exec, hsp, TF_REG, hmem r (by omega), Trapframe.word, dif_pos r.isLt]
      have hsp' : (c.setReg r (tf.regs r)).reg sp = b := by
        rw [reg_setReg _ (Ne.symm hrs.1.1), if_neg hrs.2.1, hsp]
      obtain ⟨h₁, h₂, h₃⟩ := ih hsp' ⟨hrs.1.2, hrs.2.2⟩ hmem
      have hstraight : Instr.Straight (.lw r (TF_REG r) sp) := trivial
      rw [List.map_cons, runFrom_cons hstraight, hload]
      refine ⟨h₁, h₂, fun r' => ?_⟩
      rw [h₃, reg_setReg _ (Ne.symm hrs.1.1)]
      by_cases hr' : r' ∈ rs
      · rw [if_pos hr', if_pos (List.mem_cons_of_mem _ hr')]
      · rw [if_neg hr']
        by_cases heq : r' = r
        · rw [if_pos heq, heq, if_pos List.mem_cons_self]
        · rw [if_neg heq, if_neg fun hc => (List.mem_cons.mp hc).elim heq hr']

/-- The registers that `RESTORE_ALL` loads before `sp`. -/
def restoredRegs : List (Fin 32) :=
  [31, 30, 29, 28, 27, 26, 25, 24, 23, 22, 21, 20, 19, 18, 17, 16, 15, 14, 13, 12,
    11, 10, 9, 8, 7, 6,
    5, 4, 3, 1]

lemma RESTORE_ALL_eq : RESTORE_ALL = Instr.lw t1 (4 * 35) sp :: Instr.csrw .sepc t1 ::
    (restoredRegs.map (fun r => Instr.lw r (TF_REG r) sp) ++ [Instr.lw sp (TF_REG 2) sp]) := rfl

/-- **What `RESTORE_ALL` does**, with the frame `tf` at `sp`. -/
lemma restored_restoreAll (hsp : c.reg sp = b)
    (hmem : ∀ i < 36, load c.mem (b + BitVec.ofNat 32 (4 * i)) = tf.word i) :
    (∀ r ≠ 0, (run RESTORE_ALL c).reg r = tf.regs r) ∧ (run RESTORE_ALL c).csr .sepc = tf.epc := by
  have hstraight : ∀ i ∈ restoredRegs.map fun r => Instr.lw r (TF_REG r) sp, i.Straight := by
    intro i hi
    obtain ⟨r, -, rfl⟩ := List.mem_map.mp hi
    trivial
  have hrun : run RESTORE_ALL c = run [.lw sp (TF_REG 2) sp]
      (run (restoredRegs.map fun r => .lw r (TF_REG r) sp)
        ((c.setReg t1 (tf.word 35)).setCsr .sepc (tf.word 35))) := by
    rw [RESTORE_ALL_eq, ← run_append hstraight]
    have hload : Instr.exec c (.lw t1 (4 * 35) sp) = c.setReg t1 (tf.word 35) := by
      rw [Instr.exec, hsp, hmem 35 (by decide)]
    have hcsr : Instr.exec (c.setReg t1 (tf.word 35)) (.csrw .sepc t1) =
        (c.setReg t1 (tf.word 35)).setCsr .sepc (tf.word 35) := by
      rw [Instr.exec, reg_setReg _ (by decide), if_pos rfl]
    have hlw : Instr.Straight (.lw t1 (4 * 35) sp) := trivial
    have hcsrw : Instr.Straight (.csrw .sepc t1) := trivial
    rw [runFrom_cons hlw, hload, runFrom_cons hcsrw, hcsr]
  set c₁ := (c.setReg t1 (tf.word 35)).setCsr .sepc (tf.word 35) with hc₁
  have hsp₁ : c₁.reg sp = b := by
    change (c.setReg t1 (tf.word 35)).reg sp = b
    rw [reg_setReg _ (by decide), if_neg (by decide), hsp]
  obtain ⟨hm, hcsr, hr⟩ := run_lws restoredRegs hsp₁ (by decide) hmem
  set c₂ := run (restoredRegs.map fun r => .lw r (TF_REG r) sp) c₁ with hc₂
  have hsp₂ : c₂.reg sp = b := by
    rw [hr, if_neg (by decide), hsp₁]
  have hlast : run [.lw sp (TF_REG 2) sp] c₂ = c₂.setReg sp (tf.regs sp) := by
    change c₂.setReg sp (load c₂.mem (c₂.reg sp + BitVec.ofNat 32 (4 * 2))) = _
    rw [hsp₂, hm, show c₁.mem = c.mem from rfl, hmem 2 (by decide)]
    rfl
  rw [hrun, hlast]
  refine ⟨fun r hr0 => ?_, ?_⟩
  · rw [reg_setReg _ (by decide)]
    by_cases h2 : r = sp
    · rw [if_pos h2, h2]
    · have hall : ∀ r : Fin 32, r ≠ 0 → r ≠ sp → r ∈ restoredRegs := by decide
      rw [if_neg h2, hr, if_pos (hall r hr0 h2)]
  · rw [setReg_csr, hcsr]
    rfl

/-! ## Whose stack -/

/-- `SAVE_ALL` puts the frame where it belongs, and `RESTORE_ALL` brings the registers back from it,
whatever the handler does meanwhile. -/
def SavesRestores (c : Cpu) : Prop :=
  c.Saved (run SAVE_ALL c) ∧
    ∀ c₂, (run SAVE_ALL c).SameFrame c₂ → c.Resumed (run RESTORE_ALL c₂)

/-- The registers come back from wherever the frame is. -/
lemma resumed (h : (run SAVE_ALL c).SameFrame c₂) : c.Resumed (run RESTORE_ALL c₂) := by
  have hs := saving_saveAll c
  have hmem : ∀ i < 36, load c₂.mem ((run SAVE_ALL c).reg sp + BitVec.ofNat 32 (4 * i)) =
      c.frame.word i := by
    intro i hi
    rw [load_congr h.2 hi, hs.sp_eq, hs.mem_eq, load_frameIn hi (mem_savedWords hi)]
  obtain ⟨hregs, hepc⟩ := restored_restoreAll h.1 hmem
  refine ⟨funext fun r => ?_, hepc⟩
  by_cases hr : r = 0
  · rw [hr, reg_zero, reg_zero]
  · exact hregs r hr

lemma saved_of_entrySp (h : c.entrySp = KSTACKTOP) : c.Saved (run SAVE_ALL c) := by
  have hs := saving_saveAll c
  rw [h] at hs
  refine ⟨fun i hi => ?_, fun a ha => ?_⟩
  · rw [hs.mem_eq, frameTop, load_frameIn hi (mem_savedWords hi)]
  · rw [hs.mem_eq, frameIn, if_neg]
    rintro ⟨hlt, -⟩
    have hK : KSTACKTOP.toNat = 0x80600000 := by decide
    refine ha ?_
    rw [BitVec.le_def, BitVec.lt_def, frameTop]
    rw [TF_SIZE] at hlt ⊢
    rw [BitVec.toNat_sub, BitVec.toNat_sub, BitVec.toNat_ofNat, hK] at hlt
    rw [BitVec.toNat_sub, BitVec.toNat_ofNat, hK]
    omega

/-- A frame elsewhere leaves a byte below `KSTACKTOP` out. -/
lemma exists_left_out (hb : b ≠ frameTop) : ∃ i < 36, ∃ j < 4,
    TF_SIZE ≤ (frameTop + BitVec.ofNat 32 (4 * i) + BitVec.ofNat 32 j - b).toNat := by
  have hF : frameTop.toNat = 0x805fff70 := by decide
  have hblt := b.isLt
  have hne : b.toNat ≠ 0x805fff70 := fun hc => hb (BitVec.eq_of_toNat_eq (hc.trans hF.symm))
  rw [TF_SIZE]
  by_cases h : b.toNat < 0x805fff70 ∧ 0x805fff70 < b.toNat + 144
  · refine ⟨35, by decide, 3, by decide, ?_⟩
    rw [BitVec.toNat_sub, BitVec.toNat_add, BitVec.toNat_add, hF, BitVec.toNat_ofNat,
      BitVec.toNat_ofNat]
    omega
  · refine ⟨0, by decide, 0, by decide, ?_⟩
    rw [BitVec.toNat_sub, BitVec.toNat_add, BitVec.toNat_add, hF, BitVec.toNat_ofNat]
    omega

/-- The frame cannot be below `KSTACKTOP`, whatever the memory held, unless it is put there. -/
lemma entrySp_of_saved {x : Fin 32 → Word} {csr : Csr → Word}
    (h : ∀ m, Saved ⟨x, csr, m⟩ (run SAVE_ALL ⟨x, csr, m⟩)) (m : Word → BitVec 8) :
    entrySp ⟨x, csr, m⟩ = KSTACKTOP := by
  by_contra hno
  have hb : entrySp ⟨x, csr, m⟩ - BitVec.ofNat 32 TF_SIZE ≠ frameTop := by
    intro hc
    rw [frameTop] at hc
    exact hno (BitVec.sub_left_inj _ |>.mp hc)
  obtain ⟨i, hi, j, hj, hout⟩ := exists_left_out hb
  -- that byte is the old one, and it is a byte of the frame
  have hbyte : ∀ m' : Word → BitVec 8, m' (frameTop + BitVec.ofNat 32 (4 * i) + BitVec.ofNat 32 j) =
      Bits.byte ((frame ⟨x, csr, m⟩).word i) j := by
    intro m'
    have hs := saving_saveAll ⟨x, csr, m'⟩
    have hword := (h m').word i hi
    rw [← show frame ⟨x, csr, m'⟩ = frame ⟨x, csr, m⟩ from rfl, ← hword, byte_load hj, hs.mem_eq,
      frameIn, if_neg]
    exact fun hc => absurd hc.1 (Nat.not_lt.mpr hout)
  have hconst := (hbyte fun _ => 0#8).trans (hbyte fun _ => 1#8).symm
  exact absurd hconst (by decide)

lemma entrySp_eq_iff : c.entrySp = KSTACKTOP ↔ c.reg sp < 0x80000000#32 ∨ c.reg sp = KSTACKTOP := by
  have hneg : (c.reg sp).toInt < 0 ↔ ¬ c.reg sp < 0x80000000#32 := by
    have := (c.reg sp).isLt
    rw [BitVec.toInt_neg_iff, BitVec.lt_def, BitVec.toNat_ofNat]
    omega
  rw [entrySp]
  by_cases h : c.reg sp < 0x80000000#32
  · rw [if_neg fun hc => hneg.mp hc h]
    exact iff_of_true rfl (.inl h)
  · rw [if_pos (hneg.mpr h)]
    exact ⟨.inr, fun hc => hc.resolve_left h⟩

/-- **A trap goes to the kernel stack, and back**, whatever is in memory, exactly for programs whose
`sp` is not negative, or `KSTACKTOP`. -/
theorem save_restore_iff (x : Fin 32 → Word) (csr : Csr → Word) :
    (∀ m, SavesRestores ⟨x, csr, m⟩) ↔ x sp < 0x80000000#32 ∨ x sp = KSTACKTOP := by
  have hiff : ∀ m, entrySp ⟨x, csr, m⟩ = KSTACKTOP ↔ x sp < 0x80000000#32 ∨ x sp = KSTACKTOP :=
    fun m => entrySp_eq_iff
  constructor
  · intro h
    exact (hiff fun _ => 0).mp (entrySp_of_saved (fun m => (h m).1) _)
  · intro h m
    exact ⟨saved_of_entrySp ((hiff m).mpr h), fun _ => resumed⟩

/-- With `sp` at `0x80000000`, the frame goes below that. -/
theorem negative_sp_overruns :
    ¬ ∀ m, SavesRestores ⟨fun r => if r = sp then 0x80000000#32 else 0, fun _ => 0, m⟩ := by
  intro h
  exact absurd (entrySp_of_saved (fun m => (h m).1) fun _ => 0) (by decide)

end Cpu

end

end MosRv
