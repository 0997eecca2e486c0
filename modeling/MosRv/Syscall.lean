import MosRv.Env

/-!
# System calls (`kern/syscall_all.c`)

One definition for each handler, in the order of the source, then `syscall_table` as the decoding
of a call number and five argument registers into a `Syscall`, and `doSyscall`.

A handler's result is the word it leaves in `a0`; `return -E_X` is an early exit, which `doSyscall`
turns into that word.  Effects before the exit stay, as they do in the source.
-/

namespace MosRv

def printcharc (c : Word) : KernelM Unit :=
  Prog.modify fun k => { k with dev := { k.dev with consOut := c :: k.dev.consOut } }

/-- The value of `a0` after a handler without a result. -/
def voidResult : KernelM Word := do
  let k ← Prog.get
  pure k.dev.void

def sysPutchar (c : Word) : KernelM Word := do
  printcharc (c &&& 0xFF#32)
  voidResult

def sysPrintCons (s num : Word) : KernelM Word :=
  if UTOP < s + num ∨ UTOP ≤ s ∨ s + num < s then Prog.exit (.code .inval)
  else do
    Prog.forRange (fun i => do
      let b ← loadByte (s + BitVec.ofNat 32 i)
      printcharc (b.setWidth 32)) 0 num.toNat
    pure 0#32

def sysGetenvid : KernelM Word := do
  let c ← getCurenv
  let k ← Prog.get
  pure (k.envs c).envId

def sysYield : KernelM Word := schedule true

def sysEnvDestroy (envid : Word) : KernelM Word := do
  let e ← envid2env envid true
  envDestroy e
  pure 0#32

def sysSetTlbModEntry (envid func : Word) : KernelM Word := do
  let e ← envid2env envid true
  modifyEnv e fun v => { v with envUserTlbModEntry := func }
  pure 0#32

def isIllegalVa (va : Word) : Bool := decide (va < UTEMP ∨ UTOP ≤ va)

def isIllegalVaRange (va len : Word) : Bool :=
  if len = 0#32 then false else decide (va + len < va ∨ va < UTEMP ∨ UTOP < va + len)

def sysMemAlloc (envid va perm : Word) : KernelM Word :=
  if isIllegalVa va then Prog.exit (.code .inval)
  else do
    let e ← envid2env envid true
    let pp ← liftPm pageAlloc
    let k ← Prog.get
    liftPm (pageInsert (k.envs e).envPgdir (k.envs e).envAsid pp va (perm ||| PTE_U))
    pure 0#32

def sysMemMap (srcid srcva dstid dstva perm : Word) : KernelM Word :=
  if isIllegalVa srcva ∨ isIllegalVa dstva then Prog.exit (.code .inval)
  else do
    let src ← envid2env srcid true
    let dst ← envid2env dstid true
    let k ← Prog.get
    let pp ← liftPm (pageLookup (k.envs src).envPgdir srcva)
    match pp with
    | none => Prog.exit (.code .inval)
    | some (pp, _) => do
        liftPm (pageInsert (k.envs dst).envPgdir (k.envs dst).envAsid pp dstva (perm ||| PTE_U))
        pure 0#32

def sysMemUnmap (envid va : Word) : KernelM Word :=
  if isIllegalVa va then Prog.exit (.code .inval)
  else do
    let e ← envid2env envid true
    let k ← Prog.get
    liftPm (pageRemove (k.envs e).envPgdir (k.envs e).envAsid va)
    pure 0#32

def sysExofork : KernelM Word := do
  let c ← getCurenv
  let k ← Prog.get
  let e ← envAlloc (k.envs c).envId
  let k ← Prog.get
  modifyEnv e fun v => { v with envTf := k.ktf.setReg 10 0#32 }
  modifyEnv e fun v => { v with envStatus := .notRunnable, envPri := (k.envs c).envPri }
  let k ← Prog.get
  pure (k.envs e).envId

/-- Step 3 of `sys_set_env_status`. -/
def updateSchedList (e : ℕ) (status : EnvStatus) : KernelM Unit := do
  let k ← Prog.get
  if (k.envs e).envStatus ≠ status then
    if status = .runnable then onSchedList (.insertTail e) else onSchedList (.remove e)
  else pure ()

/-- The rest of `sys_set_env_status`, for one of the two statuses it accepts. -/
def setEnvStatus (envid : Word) (status : EnvStatus) : KernelM Word := do
  let e ← envid2env envid true
  updateSchedList e status
  modifyEnv e fun v => { v with envStatus := status }
  pure 0#32

def sysSetEnvStatus (envid status : Word) : KernelM Word :=
  if status = EnvStatus.runnable.toWord then setEnvStatus envid .runnable
  else if status = EnvStatus.notRunnable.toWord then setEnvStatus envid .notRunnable
  else Prog.exit (.code .inval)

def sysSetTrapframe (envid tf : Word) : KernelM Word :=
  if isIllegalVaRange tf (BitVec.ofNat 32 TF_SIZE) then Prog.exit (.code .inval)
  else do
    let e ← envid2env envid true
    let k ← Prog.get
    if k.curenv = some e then do
      let frame ← loadTrapframe tf
      Prog.modify fun k => { k with ktf := frame }
      pure (frame.regs 10)
    else do
      let frame ← loadTrapframe tf
      modifyEnv e fun v => { v with envTf := frame }
      pure 0#32

def sysPanic (_msg : Word) : KernelM Word := Prog.panic .sysPanic

def sysIpcRecv (dstva : Word) : KernelM Word :=
  if dstva ≠ 0#32 ∧ isIllegalVa dstva then Prog.exit (.code .inval)
  else do
    let c ← getCurenv
    modifyEnv c fun v => { v with
      envIpcRecving := 1#32, envIpcDstva := dstva, envStatus := .notRunnable }
    onSchedList (.remove c)
    Prog.modify fun k => { k with ktf := k.ktf.setReg 10 0#32 }
    schedule true

/-- Step 6 of `sys_ipc_try_send`, for a nonzero `srcva`. -/
def sendPage (c e : ℕ) (srcva perm : Word) : KernelM Word := do
  let k ← Prog.get
  let p ← liftPm (pageLookup (k.envs c).envPgdir srcva)
  match p with
  | none => Prog.exit (.code .inval)
  | some (p, _) => do
      liftPm (pageInsert (k.envs e).envPgdir (k.envs e).envAsid p (k.envs e).envIpcDstva
        (perm ||| PTE_U))
      pure 0#32

def sysIpcTrySend (envid value srcva perm : Word) : KernelM Word :=
  if srcva ≠ 0#32 ∧ isIllegalVa srcva then Prog.exit (.code .inval)
  else do
    let e ← envid2env envid false
    let k ← Prog.get
    if (k.envs e).envIpcRecving = 0#32 then Prog.exit (.code .ipcNotRecv)
    else do
      let c ← getCurenv
      modifyEnv e fun v => { v with
        envIpcValue := value, envIpcFrom := (k.envs c).envId
        envIpcPerm := PTE_U ||| PTE_R ||| PTE_V ||| perm, envIpcRecving := 0#32
        envStatus := .runnable }
      onSchedList (.insertTail e)
      if srcva ≠ 0#32 then sendPage c e srcva perm else pure 0#32

def sysCgetc : KernelM Word := do
  let k ← Prog.get
  match k.dev.consIn.dropWhile (· = 0) with
  | [] => Prog.panic .hang
  | ch :: rest => do
      Prog.set { k with dev := { k.dev with consIn := rest } }
      pure (if ch < 0 then 0#32 else BitVec.ofInt 32 ch)

/-- The device addresses user code may reach. -/
def isDeviceVa (va : Word) : Bool := decide (0x10000000#32 ≤ va ∧ va < 0x10400000#32)

def sysWriteDev (va value : Word) : KernelM Word :=
  if isDeviceVa va then do
    Prog.modify fun k => { k with dev := { k.dev with
      writes := ( KMMIO ||| (va &&& 0x3FFFFF#32), value) :: k.dev.writes } }
    voidResult
  else voidResult

def sysReadDev (va : Word) : KernelM Word :=
  if isDeviceVa va then do
    let k ← Prog.get
    pure (k.dev.read k.dev.writes ( KMMIO ||| (va &&& 0x3FFFFF#32)))
  else pure (~~~0#32)

/-! ## Dispatch -/

/-- A system call with its arguments. -/
inductive Syscall
  | putchar (c : Word)
  | printCons (s num : Word)
  | getenvid
  | yield
  | envDestroy (envid : Word)
  | setTlbModEntry (envid func : Word)
  | memAlloc (envid va perm : Word)
  | memMap (srcid srcva dstid dstva perm : Word)
  | memUnmap (envid va : Word)
  | exofork
  | setEnvStatus (envid status : Word)
  | setTrapframe (envid tf : Word)
  | panic (msg : Word)
  | ipcTrySend (envid value srcva perm : Word)
  | ipcRecv (dstva : Word)
  | cgetc
  | writeDev (va value : Word)
  | readDev (va : Word)
  deriving DecidableEq, Repr

/-- `syscall_table`, with the arguments a handler takes of the five it is given. -/
def syscallTable (a₁ a₂ a₃ a₄ a₅ : Word) : List Syscall :=
  [.putchar a₁, .printCons a₁ a₂, .getenvid, .yield, .envDestroy a₁, .setTlbModEntry a₁ a₂,
    .memAlloc a₁ a₂ a₃, .memMap a₁ a₂ a₃ a₄ a₅, .memUnmap a₁ a₂, .exofork, .setEnvStatus a₁ a₂,
    .setTrapframe a₁ a₂, .panic a₁, .ipcTrySend a₁ a₂ a₃ a₄, .ipcRecv a₁, .cgetc,
    .writeDev a₁ a₂, .readDev a₁]

/-- The call a trap frame asks for; `none` for an invalid number. -/
def Trapframe.syscall (tf : Trapframe) : Option Syscall :=
  (syscallTable (tf.regs 11) (tf.regs 12) (tf.regs 13) (tf.regs 14)
    (tf.regs 15))[(tf.regs 10).toNat]?

def Syscall.run : Syscall → KernelM Word
  | .putchar c => sysPutchar c
  | .printCons s num => sysPrintCons s num
  | .getenvid => sysGetenvid
  | .yield => sysYield
  | .envDestroy envid => sysEnvDestroy envid
  | .setTlbModEntry envid func => sysSetTlbModEntry envid func
  | .memAlloc envid va perm => sysMemAlloc envid va perm
  | .memMap srcid srcva dstid dstva perm => sysMemMap srcid srcva dstid dstva perm
  | .memUnmap envid va => sysMemUnmap envid va
  | .exofork => sysExofork
  | .setEnvStatus envid status => sysSetEnvStatus envid status
  | .setTrapframe envid tf => sysSetTrapframe envid tf
  | .panic msg => sysPanic msg
  | .ipcTrySend envid value srcva perm => sysIpcTrySend envid value srcva perm
  | .ipcRecv dstva => sysIpcRecv dstva
  | .cgetc => sysCgetc
  | .writeDev va value => sysWriteDev va value
  | .readDev va => sysReadDev va

/-- The result of a handler that comes back: its value, or the negated error code. -/
def callResult (x : KernelM Word) : KernelM Word := do
  let r ← Prog.attempt x
  match r with
  | .ok v => pure v
  | .error (.code e) => pure (-e.toWord)
  | .error .popTf => Prog.exit .popTf

/-- `do_syscall`, on the frame below `KSTACKTOP`. -/
def doSyscall : KernelM Unit := do
  let k ← Prog.get
  match k.ktf.syscall with
  | none => Prog.modify fun k => { k with ktf := k.ktf.setReg 10 (-Err.noSys.toWord) }
  | some c => do
      Prog.modify fun k => { k with ktf := { k.ktf with epc := k.ktf.epc + 4#32 } }
      let r ← callResult c.run
      Prog.modify fun k => { k with ktf := k.ktf.setReg 10 r }

end MosRv
