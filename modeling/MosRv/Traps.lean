import MosRv.Syscall

/-!
# Traps (`kern/traps.c`)

`trapsDispatch` is what happens between `SAVE_ALL` and the way back to user mode: interrupts,
system calls, loads from the emulated page-table window at `UVPT`, demand faults, and stores to
read-only pages, which are handed to the env's own handler (`user_mod`).
-/

namespace MosRv

def IRQ_S_TIMER : Word := 5
def CAUSE_USER_ECALL : Word := 0x8
def CAUSE_FAULT_FETCH : Word := 0xc
def CAUSE_FAULT_LOAD : Word := 0xd
def CAUSE_FAULT_STORE : Word := 0xf

def interruptHandler : KernelM Unit := do
  let k ← Prog.get
  if k.ktf.cause &&& 0x7FFFFFFF#32 = IRQ_S_TIMER then schedule false
  else Prog.panic .unhandledIntr

def normalPageFault : KernelM Unit := do
  let k ← Prog.get
  doTlbRefill k.ktf.badvaddr k.satpAsid

/-- The address whose entry a load at `badvaddr` in the window asks for. -/
def vptVa (badvaddr : Word) : Word := badvaddr <<< 10

/-- The position of the entry that `query_vpt` reads. -/
def vptEntry (d : ℕ) (va : Word) : KernelM (Option (ℕ × ℕ)) :=
  if UVPT ≤ va ∧ va < ULIM then pure (some (d, PTX va))
  else if va < UVPT then liftPm (pgdirWalk d va false)
  else Prog.panic .vptKernelSpace

/-- `res ? *res : 0`. -/
def Pmap.at? (m : Pmap) : Option (ℕ × ℕ) → Word
  | some (f, i) => m.mem f i
  | none => 0#32

def queryVpt : KernelM Unit := do
  let k ← Prog.get
  let instr ← loadWord k.ktf.epc
  if instr &&& 0b1111111#32 ≠ 0b0000011#32 then Prog.panic .vptNotLw
  else if (instr >>> 12) &&& 0b111#32 ≠ 0b010#32 then Prog.panic .vptNotLw
  else do
    let k ← Prog.get
    match k.curPgdir with
    | none => Prog.panic .vptNoPgdir
    | some d => do
        let res ← vptEntry d (vptVa k.ktf.badvaddr)
        Prog.modify fun k => { k with ktf :=
          { k.ktf.setReg (Fin.ofNat 32 (instr >>> 7).toNat) (k.pm.at? res) with
            epc := k.ktf.epc + 4#32 } }

/-- Where `user_mod` pushes the frame, for a user stack pointer `sp`: on the exception stack, below
what is on it already. -/
def xstackSp (sp : Word) : Word :=
  (if sp < USTACKTOP ∨ UXSTACKTOP ≤ sp then UXSTACKTOP else sp) - BitVec.ofNat 32 TF_SIZE

def userMod : KernelM Unit := do
  let k ← Prog.get
  let tmpTf := k.ktf
  let sp := xstackSp (k.ktf.regs 2)
  Prog.modify fun k => { k with ktf := k.ktf.setReg 2 sp }
  storeTrapframe sp tmpTf
  let c ← getCurenv
  let k ← Prog.get
  if (k.envs c).envUserTlbModEntry ≠ 0#32 then
    Prog.modify fun k => { k with ktf :=
      { k.ktf.setReg 10 sp with epc := (k.envs c).envUserTlbModEntry } }
  else Prog.panic .noTlbModHandler

/-- Whether `pgdir_walk` finds a valid entry without `PTE_W`. -/
def Pmap.readOnlyAt (m : Pmap) (d : ℕ) (va : Word) : Bool :=
  match m.entryAt d va with
  | some w => decide (¬ HasFlag w PTE_W)
  | none => false

def exceptionHandler : KernelM Unit := do
  let k ← Prog.get
  if k.ktf.cause = CAUSE_FAULT_FETCH then Prog.panic .unknownInstr
  else if k.ktf.cause = CAUSE_USER_ECALL then doSyscall
  else if k.ktf.cause = CAUSE_FAULT_LOAD then
    if UVPT ≤ k.ktf.badvaddr ∧ k.ktf.badvaddr < ULIM then queryVpt else normalPageFault
  else if k.ktf.cause = CAUSE_FAULT_STORE then do
    let d ← getCurPgdir
    if k.pm.readOnlyAt d k.ktf.badvaddr then userMod else normalPageFault
  else Prog.panic .unhandledException

def trapsDispatch : KernelM Unit := do
  let k ← Prog.get
  if 0x80000000#32 ≤ k.ktf.cause then interruptHandler else exceptionHandler

/-- `exc_gen_entry`, for a trap from user mode: `SAVE_ALL` puts the user's registers below
`KSTACKTOP`. -/
def trap (tf : Trapframe) : KernelM Unit := do
  Prog.modify fun k => { k with ktf := tf }
  trapsDispatch

end MosRv
