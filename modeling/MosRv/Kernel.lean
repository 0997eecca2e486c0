import MosRv.PageMap
import MosRv.Lib.TailQueue

/-!
# The kernel state (`include/env.h`, `include/trap.h`)

`Kernel` is everything the kernel keeps between two traps: the pages and page tables (`Pmap`), the
array `envs`, the two lists of envs, the ASID bitmap, the static counters of `mkenvid` and
`schedule`, and the trap frame that `SAVE_ALL` leaves below `KSTACKTOP`.

`struct Env *` is an index of `envs`, and a `Pde *` the frame of the directory.  `env_free_list` is
the list of the envs on it; `env_sched_list` is the linked structure of `queue.h`, with the link
fields of all envs, since the source also unlinks envs that are not on it.

The kernel's own data sit in frames below the first free page and are fields here, not words of
`Pmap.mem`.  A trap from user mode is taken with the user's stack pointer below `KSEG0`, where
`SAVE_ALL` switches to the kernel stack.

`loadByte` and `storeByte` are the kernel's accesses to user memory at a user address.  They fault
like user accesses, and the fault is handled on the spot by `_do_tlb_refill`.
-/

namespace MosRv

/-- A register number can be written as a numeral. -/
instance registers_neZero : NeZero 32 := ⟨by decide⟩

/-- `struct Trapframe`. -/
structure Trapframe where
  regs : Fin 32 → Word
  status : Word
  badvaddr : Word
  cause : Word
  epc : Word

namespace Trapframe

/-- `tf->regs[r] = v`. -/
def setReg (tf : Trapframe) (r : Fin 32) (v : Word) : Trapframe :=
  { tf with regs := Function.update tf.regs r v }

/-- Word `i` of the frame in memory. -/
def word (tf : Trapframe) (i : ℕ) : Word :=
  if h : i < 32 then tf.regs ⟨i, h⟩
  else if i = 32 then tf.status
  else if i = 33 then tf.badvaddr
  else if i = 34 then tf.cause
  else tf.epc

/-- The frame whose words in memory are `w 0, …, w 35`. -/
def ofWords (w : ℕ → Word) : Trapframe where
  regs r := w r
  status := w 32
  badvaddr := w 33
  cause := w 34
  epc := w 35

end Trapframe

/-- `sizeof(struct Trapframe)`. -/
def TF_SIZE : ℕ := 144

inductive EnvStatus
  | free | runnable | notRunnable
  deriving DecidableEq, Repr

/-- `ENV_…`, as a word. -/
def EnvStatus.toWord : EnvStatus → Word
  | .free => 0
  | .runnable => 1
  | .notRunnable => 2

/-- `struct Env`, without its links. -/
structure Env where
  envTf : Trapframe
  envId : Word
  envAsid : Word
  envParentId : Word
  envStatus : EnvStatus
  envPgdir : ℕ
  envPri : Word
  envIpcValue : Word
  envIpcFrom : Word
  envIpcRecving : Word
  envIpcDstva : Word
  envIpcPerm : Word
  envUserTlbModEntry : Word
  envRuns : Word

/-- The devices the kernel talks to.  What they answer may depend on everything they were sent. -/
structure Devices where
  /-- The characters printed, last first. -/
  consOut : List Word
  /-- The results of the polls to come of the console, as `scancharc` returns them. -/
  consIn : List Int
  /-- The device registers written, last first. -/
  writes : List (Word × Word)
  read : List (Word × Word) → Word → Word
  /-- What a `void` handler leaves in `a0`. -/
  void : Word

def LOG2NENV : ℕ := 10
def NENV : ℕ := 1024
def NASID : ℕ := 64

/-- The kernel's state. -/
structure Kernel where
  pm : Pmap
  envs : ℕ → Env
  curenv : Option ℕ
  curPgdir : Option ℕ
  envFreeList : List ℕ
  envSchedList : TailQueue.Queue ℕ
  basePgdir : ℕ
  asidBitmap : ℕ → Word
  /-- The static `i` of `mkenvid`. -/
  mkenvidI : Word
  /-- The static `count` of `schedule`. -/
  schedCount : Word
  /-- The trap frame at `KSTACKTOP - sizeof(struct Trapframe)`. -/
  ktf : Trapframe
  dev : Devices
  /-- Not in the source: the machine stops when a list macro is used on an env that is on the wrong
  side of `env_sched_list`.  It tells whether the macros are used properly; on the machine of the
  source it is off. -/
  audit : Bool

abbrev KernelM := Prog Exit Panic Kernel

/-- A function of `kern/pmap.c`, run on the kernel's pages. -/
def liftPm {α : Type} (x : PmapM α) : KernelM α :=
  Prog.zoom Kernel.pm (fun m k => { k with pm := m }) x

/-- `e->… = …`. -/
def modifyEnv (e : ℕ) (f : Env → Env) : KernelM Unit :=
  Prog.modify fun k => { k with envs := Function.update k.envs e (f (k.envs e)) }

/-- `curenv`, where it is dereferenced. -/
def getCurenv : KernelM ℕ := do
  let k ← Prog.get
  match k.curenv with
  | some e => pure e
  | none => Prog.panic .nullCurenv

/-- `cur_pgdir`, where it is dereferenced. -/
def getCurPgdir : KernelM ℕ := do
  let k ← Prog.get
  match k.curPgdir with
  | some d => pure d
  | none => Prog.panic .nullCurenv

/-- A list operation on `env_sched_list`; it stops at a store through a null link. -/
def onSchedList (op : TailQueue.Op ℕ) : KernelM Unit := do
  let k ← Prog.get
  if k.audit ∧ op.proper (NENV + 1) k.envSchedList = false then Prog.panic .listMisuse
  else match op.apply k.envSchedList with
    | some q => Prog.set { k with envSchedList := q }
    | none => Prog.panic .nullLink

/-! ## Demand faults (`kern/pmap.c`) -/

/-- `panic_on(x)`. -/
def panicOn {α : Type} (x : PmapM α) : PmapM α := do
  let r ← Prog.attempt x
  match r with
  | .ok a => pure a
  | .error (.code e) => Prog.panic (.panicOn e)
  | .error .popTf => Prog.exit .popTf

def passiveAlloc (va : Word) (pgdir : ℕ) (asid : Word) : PmapM Unit :=
  if va < UTEMP then Prog.panic .addressTooLow
  else if USTACKTOP ≤ va ∧ va < USTACKTOP + BY2PG then Prog.panic .invalidMemory
  else if UENVS ≤ va ∧ va < UPAGES then Prog.panic .envsZone
  else if UPAGES ≤ va ∧ va < UVPT then Prog.panic .pagesZone
  else if ULIM ≤ va then Prog.panic .kernelAddress
  else do
    let p ← panicOn pageAlloc
    panicOn (pageInsert pgdir asid p va (PTE_W ||| PTE_U))

/-- The ASID in `satp`, as `env_pop_tf` set it. -/
def Kernel.satpAsid (k : Kernel) : Word :=
  match k.curenv with
  | some e => (k.envs e).envAsid
  | none => 0#32

def doTlbRefill (va asid : Word) : KernelM Unit := do
  let d ← getCurPgdir
  let pp ← liftPm (pageLookup d va)
  match pp with
  | some _ => pure ()
  | none => liftPm (passiveAlloc va d asid)

/-! ## User memory -/

/-- The byte at `va` in the address space of `d`, where a page is mapped there. -/
def Pmap.userByte (m : Pmap) (d : ℕ) (va : Word) : Option (BitVec 8) :=
  (m.entryAt d va).map fun w =>
    Bits.byte (m.mem (pteFrame w) (va.toNat % 4096 / 4)) (va.toNat % 4)

/-- Store `b` in byte `a` of frame `f`. -/
def Pmap.setByte (m : Pmap) (f a : ℕ) (b : BitVec 8) : Pmap :=
  m.write f (a / 4) (Bits.setByte (m.mem f (a / 4)) (a % 4) b)

/-- A load by the kernel from a user address. -/
def loadByte (va : Word) : KernelM (BitVec 8) := do
  let d ← getCurPgdir
  let k ← Prog.get
  match k.pm.userByte d va with
  | some b => pure b
  | none => do
      -- in the page-table window the load itself would be emulated, again and again
      if UVPT ≤ va ∧ va < ULIM then Prog.panic .hang
      else do
        doTlbRefill va k.satpAsid
        let k ← Prog.get
        match k.pm.userByte d va with
        | some b => pure b
        | none => Prog.panic .hang

/-- A store to a mapped user address.  On a page without `PTE_W` a store by the kernel ends in
`user_mod` on the kernel's own frame, whose store faults in the same way. -/
def storeMapped (d : ℕ) (va : Word) (b : BitVec 8) : KernelM Unit := do
  let k ← Prog.get
  match k.pm.entryAt d va with
  | some w =>
      if HasFlag w PTE_W then
        liftPm (Prog.modify fun m => m.setByte (pteFrame w) (va.toNat % 4096) b)
      else Prog.panic .hang
  | none => Prog.panic .hang

/-- The fault of a store to an unmapped user address. -/
def faultIn (d : ℕ) (va : Word) : KernelM Unit := do
  let k ← Prog.get
  if k.pm.entryAt d va = none then doTlbRefill va k.satpAsid else pure ()

/-- A store by the kernel to a user address. -/
def storeByte (va : Word) (b : BitVec 8) : KernelM Unit := do
  let d ← getCurPgdir
  faultIn d va
  storeMapped d va b

/-- A word at a user address, byte by byte. -/
def loadWord (va : Word) : KernelM Word := do
  let b₀ ← loadByte va
  let b₁ ← loadByte (va + 1)
  let b₂ ← loadByte (va + 2)
  let b₃ ← loadByte (va + 3)
  pure (b₃ ++ b₂ ++ b₁ ++ b₀)

/-- `n` words from `va` on, into a function that counts them from `i`. -/
def loadWords (va : Word) : (n i : ℕ) → (ℕ → Word) → KernelM (ℕ → Word)
  | 0, _, w => pure w
  | n + 1, i, w => do
      let x ← loadWord (va + BitVec.ofNat 32 (4 * i))
      loadWords va n (i + 1) (Function.update w i x)

/-- `*(struct Trapframe *)va`. -/
def loadTrapframe (va : Word) : KernelM Trapframe := do
  let w ← loadWords va (TF_SIZE / 4) 0 fun _ => 0#32
  pure (Trapframe.ofWords w)

/-- `*(struct Trapframe *)va = tf`. -/
def storeTrapframe (va : Word) (tf : Trapframe) : KernelM Unit :=
  Prog.forRange (fun i => storeByte (va + BitVec.ofNat 32 i)
    (Bits.byte (tf.word (i / 4)) (i % 4))) 0 TF_SIZE

/-! ## Rules -/

section Rules

variable {α : Type} {k : Kernel} {E : Exit → Kernel → Prop} {P : Panic → Prop}

@[simp] lemma wp_liftPm (x : PmapM α) {Q : α → Kernel → Prop} :
    Prog.wp (liftPm x) k Q E P ↔
      Prog.wp x k.pm (fun a m => Q a { k with pm := m }) (fun e m => E e { k with pm := m }) P :=
  Prog.wp_zoom x

@[simp] lemma wp_modifyEnv (e : ℕ) (f : Env → Env) {Q : Unit → Kernel → Prop} :
    Prog.wp (modifyEnv e f) k Q E P ↔
      Q () { k with envs := Function.update k.envs e (f (k.envs e)) } := Iff.rfl

lemma wp_getCurenv {Q : ℕ → Kernel → Prop} :
    Prog.wp getCurenv k Q E P ↔
      (∀ c, k.curenv = some c → Q c k) ∧ (k.curenv = none → P .nullCurenv) := by
  rw [getCurenv]
  cases h : k.curenv <;> simp [h]

lemma wp_getCurPgdir {Q : ℕ → Kernel → Prop} :
    Prog.wp getCurPgdir k Q E P ↔
      (∀ d, k.curPgdir = some d → Q d k) ∧ (k.curPgdir = none → P .nullCurenv) := by
  rw [getCurPgdir]
  cases h : k.curPgdir <;> simp [h]

/-- What every use of the list needs: the two ways of going wrong, and the result. -/
lemma wp_onSchedList {op : TailQueue.Op ℕ} {Q : Unit → Kernel → Prop} (hnull : P .nullLink)
    (hmisuse : P .listMisuse)
    (hQ : ∀ q, op.apply k.envSchedList = some q → Q () { k with envSchedList := q }) :
    Prog.wp (onSchedList op) k Q E P := by
  rw [onSchedList, Prog.wp_bind, Prog.wp_get, Prog.wp_ite, Prog.wp_panic]
  refine ⟨fun _ => hmisuse, fun _ => ?_⟩
  cases h : op.apply k.envSchedList with
  | none => exact hnull
  | some q => exact hQ q h

/-- A proper use of the list. -/
lemma wp_onSchedList_proper {op : TailQueue.Op ℕ} {Q : Unit → Kernel → Prop}
    {q : TailQueue.Queue ℕ} (hp : op.proper (NENV + 1) k.envSchedList = true)
    (hop : op.apply k.envSchedList = some q) (hQ : Q () { k with envSchedList := q }) :
    Prog.wp (onSchedList op) k Q E P := by
  rw [onSchedList, Prog.wp_bind, Prog.wp_get, if_neg (by simp [hp]), hop]
  exact hQ

lemma wp_panicOn (x : PmapM α) {m : Pmap} {Q : α → Pmap → Prop} {E : Exit → Pmap → Prop} :
    Prog.wp (panicOn x) m Q E P ↔
      Prog.wp x m Q (fun e m' => match e with
        | .code c => P (.panicOn c)
        | .popTf => E .popTf m') P := by
  rw [panicOn, Prog.wp_bind, Prog.wp_attempt]
  apply iff_of_eq
  congr 1
  funext e m'
  cases e <;> rfl

end Rules

end MosRv
