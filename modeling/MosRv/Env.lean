import MosRv.Kernel

/-!
# Environments and the scheduler (`kern/env.c`, `kern/sched.c`)

The life of an env: `envAlloc` gives a free slot an id, an ASID and an address space copied from
the template `base_pgdir`; `envFree` walks the page tables, gives every page back and puts the slot
on `env_free_list` again.  `schedule` and `envRun` never return to their caller: they end in
`env_pop_tf`, an early exit (`Exit.popTf`) out of everything the kernel was doing.
-/

namespace MosRv

/-! ## ASIDs and ids -/

/-- Bit `i` of the ASID bitmap. -/
def asidUsed (bitmap : ℕ → Word) (i : ℕ) : Bool :=
  decide (HasFlag (bitmap (i >>> 5)) (1#32 <<< (i &&& 31)))

def asidAlloc : KernelM Word := do
  let k ← Prog.get
  match (List.range NASID).find? fun i => !asidUsed k.asidBitmap i with
  | none => Prog.exit (.code .noFreeEnv)
  | some i => do
      Prog.set { k with
        asidBitmap := Function.update k.asidBitmap (i >>> 5)
          (k.asidBitmap (i >>> 5) ||| (1#32 <<< (i &&& 31))) }
      pure (BitVec.ofNat 32 i)

def asidFree (i : Word) : KernelM Unit :=
  Prog.modify fun k => { k with
    asidBitmap := Function.update k.asidBitmap (i >>> 5).toNat
      (k.asidBitmap (i >>> 5).toNat &&& ~~~(1#32 <<< (i &&& 31#32).toNat)) }

def mkenvid (e : ℕ) : KernelM Word := do
  Prog.modify fun k => { k with mkenvidI := k.mkenvidI + 1#32 }
  let k ← Prog.get
  pure ((k.mkenvidI <<< (1 + LOG2NENV)) ||| BitVec.ofNat 32 e)

/-- `ENVX(envid)`. -/
def ENVX (envid : Word) : ℕ := (envid &&& 0x3FF#32).toNat

def envid2env (envid : Word) (checkperm : Bool) : KernelM ℕ := do
  let k ← Prog.get
  if envid = 0#32 then getCurenv
  else if (k.envs (ENVX envid)).envStatus = .free ∨ (k.envs (ENVX envid)).envId ≠ envid then
    Prog.exit (.code .badEnv)
  else if checkperm then do
    let c ← getCurenv
    if (k.envs (ENVX envid)).envId ≠ (k.envs c).envId ∧
        (k.envs (ENVX envid)).envParentId ≠ (k.envs c).envId then
      Prog.exit (.code .badEnv)
    else pure (ENVX envid)
  else pure (ENVX envid)

/-! ## Creation -/

/-- `memcpy(dst + lo, src + lo, n)`, in words, between two frames. -/
def Pmap.copyWords (m : Pmap) (dst src lo n : ℕ) : Pmap :=
  { m with mem := fun f i => if f = dst ∧ lo ≤ i ∧ i < lo + n then m.mem src i else m.mem f i }

def envSetupVm (e : ℕ) : KernelM Unit := do
  let p ← liftPm pageAlloc
  liftPm (Prog.modify fun m => m.addRef p)
  modifyEnv e fun v => { v with envPgdir := p }
  let k ← Prog.get
  liftPm (Prog.modify fun m => m.copyWords p k.basePgdir (PDX UTOP) (PDX UVPT - PDX UTOP))
  liftPm (Prog.modify fun m => m.copyWords p k.basePgdir (PDX KSEG0) 512)

def envAlloc (parentId : Word) : KernelM ℕ := do
  let k ← Prog.get
  match k.envFreeList with
  | [] => Prog.exit (.code .noFreeEnv)
  | e :: rest => do
      envSetupVm e
      modifyEnv e fun v => { v with
        envUserTlbModEntry := 0#32, envRuns := 0#32, envParentId := parentId }
      let id ← mkenvid e
      modifyEnv e fun v => { v with envId := id }
      let asid ← asidAlloc
      modifyEnv e fun v => { v with envAsid := asid }
      -- room for `argc` and `argv`
      modifyEnv e fun v => { v with envTf := v.envTf.setReg 2 (USTACKTOP - 8#32) }
      Prog.modify fun k => { k with envFreeList := rest }
      pure e

/-! ## Running -/

/-- Save the context of the env that ran so far. -/
def saveContext : KernelM Unit := do
  let k ← Prog.get
  match k.curenv with
  | some c => modifyEnv c fun v => { v with envTf := k.ktf }
  | none => pure ()

def envRun {α : Type} (e : ℕ) : KernelM α := do
  let k ← Prog.get
  if (k.envs e).envStatus = .runnable then do
    saveContext
    Prog.modify fun k => { k with curenv := some e }
    modifyEnv e fun v => { v with envRuns := v.envRuns + 1#32 }
    Prog.modify fun k => { k with curPgdir := some (k.envs e).envPgdir }
    Prog.exit .popTf
  else Prog.panic .assertRunnable

/-- `e && e->env_status == ENV_RUNNABLE`, of `curenv`. -/
def Kernel.curRunnable (k : Kernel) : Bool :=
  match k.curenv with
  | some e => decide ((k.envs e).envStatus = .runnable)
  | none => false

/-- Move the current env, if it is runnable, to the tail of `env_sched_list`. -/
def requeueCur : KernelM Unit := do
  let k ← Prog.get
  match k.curenv with
  | some e =>
      if (k.envs e).envStatus = .runnable then do
        onSchedList (.remove e)
        onSchedList (.insertTail e)
      else pure ()
  | none => pure ()

/-- Pick the env at the head of `env_sched_list`. -/
def pickEnv : KernelM ℕ := do
  requeueCur
  let k ← Prog.get
  match k.envSchedList.first with
  | none => Prog.panic .noRunnable
  | some e => do
      Prog.set { k with schedCount := (k.envs e).envPri }
      pure e

/-- The env `schedule` decides to run. -/
def nextEnv (yield : Bool) : KernelM ℕ := do
  let k ← Prog.get
  if yield ∨ k.schedCount = 0#32 ∨ k.curRunnable = false then pickEnv else getCurenv

def schedule {α : Type} (yield : Bool) : KernelM α := do
  let e ← nextEnv yield
  Prog.modify fun k => { k with schedCount := k.schedCount - 1#32 }
  envRun e

/-! ## Destruction -/

/-- `PADDR(kva)`. -/
def paddr (kva : Word) : PmapM Word :=
  if kva < ULIM then Prog.panic .paddrInvalidKva else pure kva

/-- The inner loop of `env_free`: unmap every page of the page table `pt` at entry `pdeno`. -/
def envFreeTable (d : ℕ) (asid : Word) (pt pdeno : ℕ) : PmapM Unit :=
  Prog.forRange (fun pteno => do
    let m ← Prog.get
    if HasFlag (m.mem pt pteno) PTE_V then
      pageRemove d asid ((BitVec.ofNat 32 pdeno <<< 22) ||| (BitVec.ofNat 32 pteno <<< 12))
    else pure ()) 0 1024

/-- One round of the outer loop of `env_free`. -/
def envFreePde (d : ℕ) (asid : Word) (pdeno : ℕ) : PmapM Unit := do
  let m ← Prog.get
  if HasFlag (m.mem d pdeno) PTE_V then do
    let pa := pte2paddr (m.mem d pdeno)
    if m.npage ≤ frameOf pa then Prog.panic .kaddrInvalidPa
    else do
      envFreeTable d asid (frameOf pa) pdeno
      Prog.modify fun m => m.write d pdeno 0#32
      let p ← pa2page pa
      pageDecref p
  else pure ()

def envFree (e : ℕ) : KernelM Unit := do
  let k ← Prog.get
  let d := (k.envs e).envPgdir
  let asid := (k.envs e).envAsid
  liftPm do
    Prog.forRange (envFreePde d asid) 0 (PDX UTOP)
    let pa ← paddr (page2pa d)
    let p ← pa2page pa
    pageDecref p
  asidFree asid
  modifyEnv e fun v => { v with envStatus := .free }
  Prog.modify fun k => { k with envFreeList := e :: k.envFreeList }
  onSchedList (.remove e)

def envDestroy (e : ℕ) : KernelM Unit := do
  envFree e
  let k ← Prog.get
  if k.curenv = some e then do
    Prog.modify fun k => { k with curenv := none }
    schedule true
  else pure ()

/-! ## Specifications -/

/-- The state in which `env_run` goes back to user mode, to run `e`. -/
def Kernel.running (k : Kernel) (e : ℕ) : Kernel :=
  let saved : ℕ → Env := fun e' =>
    if k.curenv = some e' then { k.envs e' with envTf := k.ktf } else k.envs e'
  { k with
    envs := Function.update saved e { saved e with envRuns := (saved e).envRuns + 1#32 }
    curenv := some e
    curPgdir := some (k.envs e).envPgdir }

section Spec

variable {α : Type} {k : Kernel} {Q : α → Kernel → Prop} {E : Exit → Kernel → Prop}
  {P : Panic → Prop}

lemma wp_envRun (e : ℕ) :
    Prog.wp (envRun e : KernelM α) k Q E P ↔
      ((k.envs e).envStatus = .runnable → E .popTf (k.running e)) ∧
        ((k.envs e).envStatus ≠ .runnable → P .assertRunnable) := by
  rw [envRun, Prog.wp_bind, Prog.wp_get, Prog.wp_ite, Prog.wp_panic, saveContext]
  apply and_congr_left'
  apply imp_congr_right
  intro _
  simp only [Prog.wp_bind, Prog.wp_get, Prog.wp_modify, Prog.wp_exit, wp_modifyEnv]
  cases hc : k.curenv with
  | none => simp [Kernel.running, hc]
  | some c =>
      have hsaved : Function.update k.envs c { k.envs c with envTf := k.ktf } = fun e' =>
          if k.curenv = some e' then { k.envs e' with envTf := k.ktf } else k.envs e' := by
        funext e'
        by_cases hec : e' = c
        · simp [hec, hc]
        · simp [hec, hc, Ne.symm hec]
      have hdir : (Function.update k.envs c { k.envs c with envTf := k.ktf } e).envPgdir =
          (k.envs e).envPgdir := by
        by_cases hec : e = c <;> simp [hec]
      simp only [wp_modifyEnv, Kernel.running, Function.update_self, hsaved]
      rw [hsaved] at hdir
      simp only [hdir]

/-- The pages after `env_setup_vm` took `pp` for a page directory. -/
def Kernel.setupVm (k : Kernel) (pp : ℕ) (prest : List ℕ) : Pmap :=
  (((k.pm.take pp prest).addRef pp).copyWords pp k.basePgdir (PDX UTOP)
    (PDX UVPT - PDX UTOP)).copyWords pp k.basePgdir (PDX KSEG0) 512

/-- The id `mkenvid` makes next, for `e`. -/
def Kernel.nextId (k : Kernel) (e : ℕ) : Word :=
  ((k.mkenvidI + 1#32) <<< (1 + LOG2NENV)) ||| BitVec.ofNat 32 e

/-- `env_alloc` on `e`, up to the allocation of an ASID. -/
def Kernel.prepared (k : Kernel) (e pp : ℕ) (prest : List ℕ) (parentId : Word) : Kernel :=
  { k with
    pm := k.setupVm pp prest
    envs := Function.update k.envs e { k.envs e with
      envPgdir := pp, envUserTlbModEntry := 0#32, envRuns := 0#32, envParentId := parentId
      envId := k.nextId e }
    mkenvidI := k.mkenvidI + 1#32 }

/-- What a successful `env_alloc` leaves: `e` has the directory `pp` and the ASID `i`. -/
def Kernel.allocated (k : Kernel) (e : ℕ) (rest : List ℕ) (pp : ℕ) (prest : List ℕ)
    (parentId : Word) (i : ℕ) : Kernel :=
  { k with
    pm := k.setupVm pp prest
    envs := Function.update k.envs e { k.envs e with
      envPgdir := pp, envUserTlbModEntry := 0#32, envRuns := 0#32, envParentId := parentId
      envId := k.nextId e, envAsid := BitVec.ofNat 32 i
      envTf := (k.envs e).envTf.setReg 2 (USTACKTOP - 8#32) }
    mkenvidI := k.mkenvidI + 1#32
    envFreeList := rest
    asidBitmap := Function.update k.asidBitmap (i >>> 5)
      (k.asidBitmap (i >>> 5) ||| (1#32 <<< (i &&& 31))) }

/-- **`env_alloc`, case by case.** -/
lemma wp_envAlloc (parentId : Word) {Q : ℕ → Kernel → Prop} :
    Prog.wp (envAlloc parentId) k Q E P ↔
      match k.envFreeList with
      | [] => E (.code .noFreeEnv) k
      | e :: rest =>
          match k.pm.pageFreeList with
          | [] => E (.code .noMem) k
          | pp :: prest =>
              match (List.range NASID).find? fun i => !asidUsed k.asidBitmap i with
              | none => E (.code .noFreeEnv) (k.prepared e pp prest parentId)
              | some i => Q e (k.allocated e rest pp prest parentId i) := by
  rw [envAlloc, Prog.wp_bind, Prog.wp_get]
  cases hl : k.envFreeList with
  | nil => rfl
  | cons e rest =>
      simp only [Prog.wp_bind, envSetupVm, wp_liftPm]
      cases hf : k.pm.pageFreeList with
      | nil => rw [wp_pageAlloc_nil hf]
      | cons pp prest =>
          rw [wp_pageAlloc_cons hf]
          simp only [Prog.wp_bind, Prog.wp_modify, wp_modifyEnv, Prog.wp_get, mkenvid, Prog.wp_pure,
            asidAlloc]
          cases (List.range NASID).find? fun i => !asidUsed k.asidBitmap i with
          | none => simp [Kernel.prepared, Kernel.setupVm, Kernel.nextId]
          | some i =>
              simp [Kernel.allocated, Kernel.setupVm, Kernel.nextId]

end Spec

end MosRv
