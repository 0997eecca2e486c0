import MosRv.TrapEntry
import MosRv.User.Memory

/-!
# Copy on write (`user_mod` and `cow_entry`)

A store to a page without `PTE_W` traps.  `user_mod` pushes the trap frame on the exception stack
and sends the env to the handler it has registered, and the handler of `fork` is `cow_entry`: it
allocates a page at `UCOW`, copies the page of the fault there, maps the copy in the page's place,
and hands the frame to `sys_set_trapframe`, which brings the env back to the store.

`cowEntry` is the handler as a program that runs on the kernel, its system calls being traps; what
is in the registers then, apart from the arguments, is left open (`frame`); what the handler itself
keeps on the stack, below the frame, is not modelled.  `cow_fault_transparent` says what the code
that faulted gets to see of this: its registers are the ones it had, and the page is a private copy
that it may write to.
-/

namespace MosRv

open Prog

/-- `ROUNDDOWN(a, n)` (`include/types.h`). -/
def ROUNDDOWN (a n : Word) : Word := a &&& ~~~(n - 1#32)

/-- `cow_entry(tf)`.  The result is whether the handler gets to its end; if not, it has called
`user_panic`.  For the call `c`, `frame c` is the trap frame that the `ecall` leaves. -/
def cowEntry (frame : Syscall → Trapframe) (tf : Word) : KernelM Bool := do
  let va ← loadWord (tf + BitVec.ofNat 32 TF_BADVADDR)
  let d ← getCurPgdir
  let k ← Prog.get
  let perm := pteBits (k.vptWord d (VPN va).toNat)
  if ¬ HasFlag perm PTE_COW then pure false
  else do
    let perm := (perm &&& ~~~PTE_COW) ||| PTE_W
    trap (frame (.memAlloc 0#32 UCOW PTE_W))
    let va := ROUNDDOWN va BY2PG
    copyPage UCOW va
    trap (frame (.memMap 0#32 UCOW 0#32 va perm))
    trap (frame (.memUnmap 0#32 UCOW))
    trap (frame (.setTrapframe 0#32 tf))
    pure true

/-- A trap, and `cow_entry`, if this is where the kernel sends the env. -/
def trapToCow (cow : Word) (frame : Syscall → Trapframe) (tf : Trapframe) : KernelM Bool := do
  trap tf
  let k ← Prog.get
  if k.ktf.epc = cow then cowEntry frame (k.ktf.regs 10) else pure false

/-- The page of the exception stack. -/
def XSTACK : Word := UXSTACKTOP - BY2PG

/-- **A store fault of the env `p` at a page that is to be copied on write**, whose entry is `w`. -/
structure CowFault (k : Kernel) (p : ℕ) (cow : Word) (tf : Trapframe) (w : Word) : Prop where
  cur : k.curenv = some p
  handler : (k.envs p).envUserTlbModEntry = cow
  handler_ne : cow ≠ 0#32
  cause : tf.cause = CAUSE_FAULT_STORE
  legal : isIllegalVa tf.badvaddr = false
  entry : k.entry p tf.badvaddr = some w
  toCopy : HasFlag w PTE_COW
  readOnly : ¬ HasFlag w PTE_W
  /-- The handler works with the page at `UCOW`. -/
  ne_UCOW : VPN tf.badvaddr ≠ VPN UCOW
  /-- There is room for the frame on the exception stack … -/
  room : XSTACK ≤ xstackSp (tf.regs 2)
  /-- … which is a page of its own, if it is there. -/
  xstack : ∀ wx, k.entry p XSTACK = some wx → HasFlag wx PTE_W ∧ pteFrame wx ≠ pteFrame w
  /-- No page is mapped where `vpt` is read. -/
  window : k.pm.readable (k.envs p).envPgdir (vpt (VPN tf.badvaddr)) = none
  memory : 4 ≤ k.pm.pageFreeList.length

/-- **The page at `va`, which had the entry `w`, is a private copy**, and nothing else has changed
but for the exception stack and the mapping at `UCOW`. -/
structure CopiedOnWrite (k k' : Kernel) (p : ℕ) (va w : Word) : Prop where
  rest : ∃ m tf, k' = { k with pm := m, ktf := tf }
  /-- The copy: its flags, what is in it, and where it is mapped. -/
  copy : ∃ w', k'.entry p va = some w' ∧
    pteBits w' = entryFlags (((pteBits w &&& ~~~PTE_COW) ||| PTE_W) ||| PTE_U) ∧
    (∀ i < 1024, k'.pm.mem (pteFrame w') i = k.pm.mem (pteFrame w) i) ∧ ¬ k.Maps (pteFrame w') ∧
    ∀ x y w'', k.Live x → IsOwnVa y → k'.entry x y = some w'' → pteFrame w'' = pteFrame w' →
      x = p ∧ VPN y = VPN va
  scratch : k'.entry p UCOW = none
  /-- The exception stack is there now. -/
  xstack : ∃ wx, k'.entry p XSTACK = some wx ∧ HasFlag wx PTE_W ∧
    (k.entry p XSTACK = some wx ∨ (k.entry p XSTACK = none ∧ ¬ k.Maps (pteFrame wx)))
  entry : ∀ x y, k.Live x → IsOwnVa y →
    ¬ (x = p ∧ (VPN y = VPN va ∨ VPN y = VPN UCOW ∨ VPN y = VPN XSTACK)) →
    k'.entry x y = k.entry x y
  mem : ∀ f, k.Maps f → (∀ wx, k.entry p XSTACK = some wx → f ≠ pteFrame wx) →
    k'.pm.mem f = k.pm.mem f

section

variable {mc : Machine} {T : Template} {k k' k₁ : Kernel} {p : ℕ} {cow va sp w wx : Word}
  {tf : Trapframe} {frame : Syscall → Trapframe} {b : BitVec 8}

/-! ## Pushing the frame -/

/-- The frame `tf` is on the exception stack of `p`, at `sp`; `wx` is the entry of the stack. -/
structure Pushed (k k₁ : Kernel) (p : ℕ) (sp : Word) (tf : Trapframe) (wx : Word) : Prop where
  rest : ∃ m tf', k₁ = { k with pm := m, ktf := tf' }
  xstack : k₁.entry p XSTACK = some wx
  writable : HasFlag wx PTE_W
  origin : k.entry p XSTACK = some wx ∨ (k.entry p XSTACK = none ∧ ¬ k.Maps (pteFrame wx))
  frame : HoldsFrame (k₁.pm.mem (pteFrame wx)) (sp.toNat % 4096) tf
  entry : ∀ x y, k.Live x → IsOwnVa y → ¬ (x = p ∧ VPN y = VPN XSTACK) → k₁.entry x y = k.entry x y
  mem : ∀ f, k.Maps f → f ≠ pteFrame wx → k₁.pm.mem f = k.pm.mem f
  free : k.pm.pageFreeList.length ≤ k₁.pm.pageFreeList.length + 2

lemma xstack_page (hroom : XSTACK ≤ xstackSp sp) :
    VPN (xstackSp sp) = VPN XSTACK ∧ (xstackSp sp).toNat % 4096 + TF_SIZE ≤ 4096 ∧
      IsDemandVa (xstackSp sp) := by
  have hle := xstackSp_le sp
  have hU : UTOP.toNat = 0x7f400000 := by decide
  have hX : XSTACK.toNat = 0x7f3ff000 := by decide
  have hS : (USTACKTOP + BY2PG).toNat = 0x7f3ff000 := by decide
  have hT : UTEMP.toNat = 0x3fe000 := by decide
  have hsize : TF_SIZE = 144 := rfl
  rw [BitVec.le_def, hX] at hroom
  refine ⟨?_, by omega, ?_, ?_, fun hg => ?_⟩
  · rw [← BitVec.toNat_inj, VPN_toNat, VPN_toNat, hX]
    omega
  · rw [BitVec.le_def, hT]
    omega
  · rw [BitVec.lt_def, hU]
    omega
  · rw [BitVec.lt_def, hS] at hg
    omega

lemma isOwnVa_XSTACK : IsOwnVa XSTACK := isOwnVa_of_lt (by decide)

/-- A store that faults is the store after the fault. -/
lemma storeByte_demand {d : ℕ} (hd : k.curPgdir = some d) (hno : k.pm.entryAt d va = none)
    (hrun : doTlbRefill va k.satpAsid k = .ok () k') (hd' : k'.curPgdir = some d)
    (hw : k'.pm.entryAt d va = some w) : storeByte va b k = storeByte va b k' := by
  have hstore : ∀ {k₀ : Kernel}, k₀.curPgdir = some d → faultIn d va k₀ = .ok () k' →
      storeByte va b k₀ = storeMapped d va b k' := by
    intro k₀ h₀ hfault
    rw [storeByte]
    simp only [Bind.bind, Prog.bind, getCurPgdir, Prog.get, h₀, Pure.pure, hfault]
  have hbefore : faultIn d va k = .ok () k' := by
    rw [faultIn]
    simp only [Bind.bind, Prog.bind, Prog.get, hno, if_true]
    exact hrun
  have hafter : faultIn d va k' = .ok () k' := by
    rw [faultIn]
    simp only [Bind.bind, Prog.bind, Prog.get, hw, reduceCtorEq, if_false]
    rfl
  rw [hstore hd hbefore, hstore hd' hafter]

lemma storeTrapframe_demand (h : ∀ b, storeByte sp b k = storeByte sp b k') :
    storeTrapframe sp tf k = storeTrapframe sp tf k' := by
  have hzero : sp + BitVec.ofNat 32 0 = sp := by simp
  rw [storeTrapframe, show TF_SIZE = 143 + 1 from rfl, forRange_succ, hzero]
  simp only [Bind.bind, Prog.bind, h]

section

variable (hk : KInv T k) (hgap : T.gap = true) (hcur : k.curenv = some p)
include hk hgap hcur

/-- **The frame is pushed**, on a page that is allocated for it if need be. -/
lemma push_run (hvpn : VPN sp = VPN XSTACK) (hroom : sp.toNat % 4096 + TF_SIZE ≤ 4096)
    (hdemand : IsDemandVa sp) (hW : ∀ wx, k.entry p XSTACK = some wx → HasFlag wx PTE_W)
    (hfree : 2 ≤ k.pm.pageFreeList.length) (tf : Trapframe) :
    ∃ k₁ wx, storeTrapframe sp tf k = .ok () k₁ ∧ KInv T k₁ ∧ Pushed k k₁ p sp tf wx := by
  have hlive := Kernel.live_of_cur hk hcur
  have hsp : IsOwnVa sp := isOwnVa_of_lt hdemand.2.1
  cases hx : k.entry p XSTACK with
  | some wx =>
      have hentry : k.entry p sp = some wx := (entry_of_VPN hvpn).trans hx
      have hmaps : k.Maps (pteFrame wx) := ⟨p, sp, wx, hlive, hsp, hentry, rfl⟩
      have hnot := hmaps.not_isTable hk hgap
      obtain ⟨g, hrun, hg⟩ := storeTrapframe_run hk hcur hgap hsp hentry (hW wx hx) tf hroom
      refine ⟨_, wx, hrun, hk.withPage hgap hmaps, ⟨_, _, rfl⟩, ?_, hW wx hx, .inl hx, ?_, ?_, ?_,
        Nat.le_add_right _ 2⟩
      · rw [entry_withPage hgap hnot hlive isOwnVa_XSTACK, hx]
      · rw [withPage_mem_self]
        exact hg
      · exact fun x y hx hy _ => entry_withPage hgap hnot hx hy
      · exact fun f _ hne => withPage_mem_of_ne hne
  | none =>
      have hno : k.entry p sp = none := (entry_of_VPN hvpn).trans hx
      obtain ⟨k', pp, rest, hfault, hf, hk', hset, -, hlen⟩ :=
        run_demand hk hgap hcur hdemand hno hfree k.satpAsid
      have hmem : pp ∈ k.pm.pageFreeList := by simp [hf]
      have hpp : pp < 0x80000 := hk.pages.free_lt pp hmem
      have hcur' : k'.curenv = some p := hset.curenv_eq.trans hcur
      have hdir := Kernel.curPgdir_of_cur hk hcur
      have hentry : k'.entry p sp = some (insertedWord none pp (PTE_W ||| PTE_U)) :=
        hset.entry_self hlive hsp
      have hframe : pteFrame (insertedWord none pp (PTE_W ||| PTE_U)) = pp :=
        (insertedWord_spec none hpp (by decide)).1
      have hmaps : k'.Maps pp := ⟨p, sp, _, hset.live_iff.mpr hlive, hsp, hentry, hframe⟩
      have hnot := hmaps.not_isTable hk' hgap
      have hnew : ¬ k.Maps pp := fun hm => hm.notMem_free hk hgap hmem
      obtain ⟨g, hrun, hg⟩ := storeTrapframe_run hk' hcur' hgap hsp hentry
        (hasFlag_insertedWord (by decide)) tf hroom
      have hsame : storeTrapframe sp tf k = storeTrapframe sp tf k' := by
        refine storeTrapframe_demand fun b => storeByte_demand hdir hno hfault
          (hset.curPgdir_eq.trans hdir) (w := insertedWord none pp (PTE_W ||| PTE_U)) ?_
        rw [Kernel.entry, hset.envs_eq] at hentry
        exact hentry
      rw [hframe] at hrun
      obtain ⟨m, tf', hrest⟩ := hset.rest
      refine ⟨_, insertedWord none pp (PTE_W ||| PTE_U), hsame.trans hrun, hk'.withPage hgap hmaps,
        ⟨(k'.withPage pp g).pm, tf', ?_⟩, ?_, hasFlag_insertedWord (by decide),
          .inr ⟨hx, ?_⟩, ?_, ?_,
        ?_, ?_⟩
      · rw [hrest]
        rfl
      · rw [entry_withPage hgap hnot (hset.live_iff.mpr hlive) isOwnVa_XSTACK, ← entry_of_VPN hvpn,
          hentry]
      · rwa [hframe]
      · rw [hframe, withPage_mem_self]
        exact hg
      · intro x y hxl hy hne
        rw [entry_withPage hgap hnot (hset.live_iff.mpr hxl) hy]
        exact hset.entry_of_ne hxl hy fun hc => hne ⟨hc.1, hc.2.trans hvpn⟩
      · intro f hfm hne
        rw [hframe] at hne
        rw [withPage_mem_of_ne hne]
        exact hset.mem f (hfm.not_isTable hk hgap) (hfm.notMem_free hk hgap)
      · change _ ≤ k'.pm.pageFreeList.length + 2
        rw [hf, List.length_cons]
        omega

/-! ## The trap -/

/-- **`user_mod`** pushes the frame and sends the env to its handler. -/
lemma trap_userMod (hhandler : (k.envs p).envUserTlbModEntry = cow) (hcow : cow ≠ 0#32)
    (hcause : tf.cause = CAUSE_FAULT_STORE) (hw : k.entry p tf.badvaddr = some w)
    (hro : ¬ HasFlag w PTE_W) (hroom : XSTACK ≤ xstackSp (tf.regs 2))
    (hW : ∀ wx, k.entry p XSTACK = some wx → HasFlag wx PTE_W)
    (hfree : 2 ≤ k.pm.pageFreeList.length) :
    ∃ k₁ wx, trap tf k = .ok () k₁ ∧ (KInv T k₁ ∧ k.Leads k₁) ∧
      Pushed k k₁ p (xstackSp (tf.regs 2)) tf wx ∧ k₁.ktf.regs 10 = xstackSp (tf.regs 2) ∧
      k₁.ktf.epc = cow := by
  subst hhandler
  obtain ⟨hvpn, hroom', hdemand⟩ := xstack_page hroom
  have hdir := Kernel.curPgdir_of_cur hk hcur
  have hk₀ : KInv T { k with ktf := tf.setReg 2 (xstackSp (tf.regs 2)) } :=
    hk.of_eq rfl rfl rfl rfl rfl rfl
  obtain ⟨k₁, wx, hrun, hk₁, hpush⟩ := push_run hk₀ hgap hcur hvpn hroom' hdemand hW hfree tf
  obtain ⟨m, tf', rfl⟩ := hpush.rest
  have hronly : k.pm.readOnlyAt (k.envs p).envPgdir tf.badvaddr = true := by
    have hw' : k.pm.entryAt (k.envs p).envPgdir tf.badvaddr = some w := hw
    rw [Pmap.readOnlyAt, hw']
    exact decide_eq_true hro
  have hwp : wp (trap tf) k (fun _ k₂ => k₂ = { k with
      pm := m
      ktf := { tf'.setReg 10 (xstackSp (tf.regs 2)) with epc := (k.envs p).envUserTlbModEntry } })
      (fun _ _ => False) fun _ => False := by
    rw [trap, wp_bind, wp_modify, trapsDispatch, wp_bind, wp_get]
    have hlow : ¬ (0x80000000#32 ≤ tf.cause) := by
      rw [hcause]
      decide
    rw [if_neg hlow, exceptionHandler, wp_bind, wp_get]
    simp only [hcause]
    rw [if_neg (by decide), if_neg (by decide), if_neg (by decide), if_pos trivial, wp_bind,
      wp_getCurPgdir]
    refine ⟨fun d hd => ?_, fun hno => absurd (hdir.symm.trans hno) (by simp)⟩
    obtain rfl := Option.some.inj (hdir.symm.trans hd)
    rw [hronly, if_pos rfl, userMod, wp_bind, wp_get, wp_bind, wp_modify, wp_bind, wp_of_ok hrun,
      wp_bind, wp_getCurenv]
    refine ⟨fun c hc => ?_, fun hno => absurd (hcur.symm.trans hno) (by simp)⟩
    obtain rfl := Option.some.inj (hcur.symm.trans hc)
    rw [wp_bind, wp_get]
    dsimp only
    rw [if_pos hcow, wp_modify]
  obtain ⟨u, k₂, hrun₂, rfl⟩ := hwp.exists_ok
  have hnocall : tf.Admissible k := fun call hcall => absurd (hcause.symm.trans hcall.1) (by decide)
  refine ⟨_, wx, hrun₂, hk.trap_leads hgap hcur hnocall hrun₂, ?_, by simp [Trapframe.setReg], rfl⟩
  exact ⟨⟨m, _, rfl⟩, hpush.xstack, hpush.writable, hpush.origin, hpush.frame,
    hpush.entry, hpush.mem,
    hpush.free⟩

end

/-! ## The handler -/

/-- A load through `vpt`, where no page hides the window, finds the entry of a mapped page. -/
lemma vptWord_of_entry (hno : k.pm.readable (k.envs p).envPgdir (vpt (VPN va)) = none)
    (hw : k.entry p va = some w) : k.vptWord (k.envs p).envPgdir (VPN va).toNat = w := by
  have hvpn : VPN (VPN va <<< 12) = VPN va := by
    rw [← BitVec.toNat_inj, VPN_toNat, BitVec.toNat_shiftLeft, Nat.shiftLeft_eq, VPN_toNat]
    have := va.isLt
    omega
  have hw' : k.pm.entryAt (k.envs p).envPgdir (VPN va <<< 12) = some w :=
    (entryAt_of_VPN hvpn).trans hw
  rw [Kernel.vptWord, Kernel.windowWord, BitVec.ofNat_toNat, BitVec.setWidth_eq, hno,
    Option.getD_none]
  rw [Pmap.entryAt, Option.bind_eq_some_iff] at hw'
  obtain ⟨⟨t, j⟩, htj, hv⟩ := hw'
  rw [htj]
  exact (validWord_eq_some.mp hv).2

/-- The start of a legal page is legal. -/
lemma isIllegalVa_of_page {va' : Word} (halign : va'.toNat % 4096 = 0) (hvpn : VPN va' = VPN va)
    (hva : isIllegalVa va = false) : isIllegalVa va' = false := by
  have hUT : UTEMP.toNat = 0x3fe000 := by decide
  have hU : UTOP.toNat = 0x7f400000 := by decide
  rw [← BitVec.toNat_inj, VPN_toNat, VPN_toNat] at hvpn
  rw [isIllegalVa, decide_eq_false_iff_not, BitVec.lt_def, BitVec.le_def, hUT, hU] at hva ⊢
  omega

lemma pageStart (va : Word) :
    VPN (ROUNDDOWN va BY2PG) = VPN va ∧ (ROUNDDOWN va BY2PG).toNat % 4096 = 0 := by
  have hmask : BY2PG - 1#32 = 0xFFF#32 := by decide
  have hnat : (ROUNDDOWN va BY2PG).toNat = va.toNat / 4096 * 4096 := by
    rw [ROUNDDOWN, hmask, Bits.toNat_and_not_low low12]
    rfl
  rw [← BitVec.toNat_inj, VPN_toNat, VPN_toNat, hnat]
  omega

/-- **The page at `va`, which had the entry `w`, has been replaced by a copy**, mapped with the
flags `perm` and in no other place; no entry but those for `va` and `UCOW` is another one. -/
structure Replaced (k k' : Kernel) (p : ℕ) (va perm w w' : Word) : Prop where
  rest : ∃ m tf, k' = { k with pm := m, ktf := tf }
  entry : ∀ x y, k.Live x → IsOwnVa y → k'.entry x y =
    if x = p ∧ VPN y = VPN UCOW then none
    else if x = p ∧ VPN y = VPN va then some w' else k.entry x y
  bits : pteBits w' = entryFlags (perm ||| PTE_U)
  new : ¬ k.Maps (pteFrame w')
  copy : ∀ i < 1024, k'.pm.mem (pteFrame w') i = k.pm.mem (pteFrame w) i
  mem : ∀ f, k.Maps f → k'.pm.mem f = k.pm.mem f

/-- **The page at `UCOW` is a copy of the page of `w`**, and `w₂` is the only entry for it. -/
structure Scratched (k k' : Kernel) (p : ℕ) (w w₂ : Word) : Prop where
  rest : ∃ m tf, k' = { k with pm := m, ktf := tf }
  entry : ∀ x y, k.Live x → IsOwnVa y →
    k'.entry x y = if x = p ∧ VPN y = VPN UCOW then some w₂ else k.entry x y
  lt : pteFrame w₂ < 0x80000
  new : ¬ k.Maps (pteFrame w₂)
  copy : ∀ i < 1024, k'.pm.mem (pteFrame w₂) i = k.pm.mem (pteFrame w) i
  mem : ∀ f, k.Maps f → k'.pm.mem f = k.pm.mem f
  table : ∀ f, k.Maps f → ¬ k'.IsTable f

lemma hasFlag_pde_of_entry (hw : k.entry p va = some w) :
    HasFlag (k.pm.pde (k.envs p).envPgdir va) PTE_V := by
  rw [Kernel.entry, Pmap.entryAt, Option.bind_eq_some_iff] at hw
  obtain ⟨⟨t, j⟩, htj, -⟩ := hw
  exact (Pmap.walk_eq_some.mp htj).1.1

lemma VPN_UCOW : isIllegalVa UCOW = false ∧ UCOW.toNat % 4096 = 0 := by decide

section

variable (hk : KInv T k) (hgap : T.gap = true) (hcur : k.curenv = some p)
include hk hgap hcur

/-- **Steps 3 and 4 of `cow_entry`.** -/
lemma scratch_run {va' : Word} (hframe : ∀ c, (frame c).Calls c) (hva' : VPN va' = VPN va)
    (halign : va'.toNat % 4096 = 0) (hown : IsOwnVa va) (hw : k.entry p va = some w)
    (hne : VPN va ≠ VPN UCOW) (hfree : 2 ≤ k.pm.pageFreeList.length) :
    ∃ k₂ k₃ w₂, trap (frame (.memAlloc 0#32 UCOW PTE_W)) k = .ok () k₂ ∧
      copyPage UCOW va' k₂ = .ok () k₃ ∧ (KInv T k₃ ∧ k.Leads k₃) ∧ Scratched k k₃ p w w₂ := by
  have hlive := Kernel.live_of_cur hk hcur
  have hUown : IsOwnVa UCOW := isOwnVa_of_lt (by decide)
  have hown' : IsOwnVa va' := isOwnVa_of_VPN hva' hown
  have hmaps : k.Maps (pteFrame w) := ⟨p, va, w, hlive, hown, hw, rfl⟩
  obtain ⟨k₂, pp, rest, hrun₂, hf, ⟨hk₂, hl₂⟩, hset₂, -, -⟩ :=
    trap_memAlloc hk hgap hcur VPN_UCOW.1 (by decide) hfree (hframe (.memAlloc 0#32 UCOW PTE_W))
  have hmem : pp ∈ k.pm.pageFreeList := by simp [hf]
  have hpp : pp < 0x80000 := hk.pages.free_lt pp hmem
  have hnew : ¬ k.Maps pp := fun hm => hm.notMem_free hk hgap hmem
  have hcur₂ : k₂.curenv = some p := hset₂.curenv_eq.trans hcur
  set w₂ := insertedWord (k.entry p UCOW) pp (PTE_W ||| PTE_U) with hw₂
  have hframe₂ : pteFrame w₂ = pp := (insertedWord_spec _ hpp (by decide)).1
  have hU₂ : k₂.entry p UCOW = some w₂ := hset₂.entry_self hlive hUown
  have hva₂ : k₂.entry p va' = some w := by
    rw [hset₂.entry_of_ne hlive hown' fun hc => hne (hva'.symm.trans hc.2), entry_of_VPN hva', hw]
  have hmaps₂ : k₂.Maps pp := ⟨p, UCOW, w₂, hset₂.live_iff.mpr hlive, hUown, hU₂, hframe₂⟩
  have hnot₂ := hmaps₂.not_isTable hk₂ hgap
  obtain ⟨g, hrun₃, hl₃, hg⟩ := copyPage_run hk₂ hcur₂ hgap (by decide : UCOW < UTOP) hown'
    VPN_UCOW.2 halign hU₂ hva₂ (hasFlag_insertedWord (by decide)) (hasFlag_insertedWord (by decide))
    fun hc => hnew (hframe₂ ▸ hc ▸ hmaps)
  rw [hframe₂] at hrun₃ hl₃
  refine ⟨k₂, _, w₂, hrun₂, hrun₃, ⟨hk₂.withPage hgap hmaps₂, hl₂.trans hl₃⟩, ?_,
    fun x y hx hy => ?_,
    by rwa [hframe₂], by rwa [hframe₂], fun i hi => ?_, fun f hfm => ?_, fun f hfm => ?_⟩
  · obtain ⟨m₂, tf₂, rfl⟩ := hset₂.rest
    exact ⟨_, tf₂, rfl⟩
  · rw [entry_withPage hgap hnot₂ (hset₂.live_iff.mpr hx) hy]
    exact hset₂.entry x y hx hy
  · rw [hframe₂, withPage_mem_self, hg i hi,
      hset₂.mem _ (hmaps.not_isTable hk hgap) (hmaps.notMem_free hk hgap)]
  · have hne' : f ≠ pp := fun hc => hnew (hc ▸ hfm)
    rw [withPage_mem_of_ne hne', hset₂.mem f (hfm.not_isTable hk hgap) (hfm.notMem_free hk hgap)]
  · rw [isTable_withPage hgap hnot₂]
    intro htable
    rcases hset₂.table f htable with hold | hfree'
    · exact hfm.not_isTable hk hgap hold
    · exact hfm.notMem_free hk hgap hfree'

/-- **Steps 3 to 6 of `cow_entry`.** -/
lemma replace_run {perm va' : Word} (hframe : ∀ c, (frame c).Calls c) (hva : isIllegalVa va = false)
    (hva' : VPN va' = VPN va) (halign : va'.toNat % 4096 = 0) (hw : k.entry p va = some w)
    (hne : VPN va ≠ VPN UCOW) (hperm : perm < 0x400) (hfree : 2 ≤ k.pm.pageFreeList.length) :
    ∃ k₂ k₃ k₄ k₅ w', trap (frame (.memAlloc 0#32 UCOW PTE_W)) k = .ok () k₂ ∧
      copyPage UCOW va' k₂ = .ok () k₃ ∧
      trap (frame (.memMap 0#32 UCOW 0#32 va' perm)) k₃ = .ok () k₄ ∧
      trap (frame (.memUnmap 0#32 UCOW)) k₄ = .ok () k₅ ∧ (KInv T k₅ ∧ k.Leads k₅) ∧
      Replaced k k₅ p va perm w w' := by
  have hlive := Kernel.live_of_cur hk hcur
  have hUown : IsOwnVa UCOW := isOwnVa_of_lt (by decide)
  have hown : IsOwnVa va := isOwnVa_of_lt (lt_UTOP_of_legal hva)
  obtain ⟨k₂, k₃, w₂, hrun₂, hrun₃, ⟨hk₃, hl₃⟩, hs⟩ :=
    scratch_run hk hgap hcur hframe hva' halign hown hw hne hfree
  have hcur₃ : k₃.curenv = some p := by
    obtain ⟨m, tf₃, rfl⟩ := hs.rest
    exact hcur
  have hlive₃ : ∀ {x}, k.Live x ↔ k₃.Live x := by
    obtain ⟨m, tf₃, rfl⟩ := hs.rest
    exact Iff.rfl
  have hU₃ : k₃.entry p UCOW = some w₂ := (hs.entry p UCOW hlive hUown).trans (if_pos ⟨rfl, rfl⟩)
  have hva₃ : k₃.entry p va' = some w := by
    rw [hs.entry p va' hlive (isOwnVa_of_VPN hva' hown), if_neg fun hc =>
      hne (hva'.symm.trans hc.2),
      entry_of_VPN hva', hw]
  have hmaps₃ : k₃.Maps (pteFrame w₂) := ⟨p, UCOW, w₂, hlive₃.mp hlive, hUown, hU₃, rfl⟩
  -- the copy is mapped once, so that it can be mapped again
  have hrefs : k₃.refCount (pteFrame w₂) < 65535 := by
    refine lt_of_le_of_lt (refCount_le_one p UCOW hk₃ hgap hmaps₃ ?_) (by decide)
    intro x y w'' hx hy hw'' hwf
    have hx' : k.Live x := hlive₃.mpr hx
    rw [hs.entry x y hx' hy] at hw''
    split_ifs at hw'' with hxy
    · exact hxy
    · exact absurd ⟨x, y, w'', hx', hy, hw'', hwf⟩ hs.new
  obtain ⟨k₄, hrun₄, ⟨hk₄, hl₄⟩, hset₄, htables, -⟩ := trap_memMap hk₃ hgap hcur₃ VPN_UCOW.1
    (isIllegalVa_of_page halign hva' hva) hperm hU₃ hrefs (.self rfl hcur₃) (hlive₃.mp hlive)
    (.inr (hasFlag_pde_of_entry hva₃)) (hframe (.memMap 0#32 UCOW 0#32 va' perm))
  obtain ⟨htable₄, hmem₄⟩ := htables (by simp [hva₃])
  rw [hva₃] at hset₄
  have hcur₄ : k₄.curenv = some p := hset₄.curenv_eq.trans hcur₃
  obtain ⟨k₅, hrun₅, ⟨hk₅, hl₅⟩, hset₅, hmem₅, -⟩ :=
    trap_memUnmap hk₄ hgap hcur₄ VPN_UCOW.1 (hframe (.memUnmap 0#32 UCOW))
  obtain ⟨hframe', hbits'⟩ := insertedWord_spec (some w) hs.lt (Fork.or_PTE_U_lt hperm)
  have hnot₅ : ∀ f, ¬ k₃.IsTable f → k₅.pm.mem f = k₃.pm.mem f := by
    intro f hnot
    rw [hmem₅ f (mt (htable₄ f).mp hnot), hmem₄ f hnot]
  refine ⟨k₂, k₃, k₄, k₅, insertedWord (some w) (pteFrame w₂) (perm ||| PTE_U), hrun₂, hrun₃, hrun₄,
    hrun₅, ⟨hk₅, (hl₃.trans hl₄).trans hl₅⟩, ?_, fun x y hx hy => ?_, hbits',
    by rw [hframe']; exact hs.new, fun i hi => ?_, fun f hfm => ?_⟩
  · obtain ⟨m₃, tf₃, rfl⟩ := hs.rest
    obtain ⟨m₄, tf₄, rfl⟩ := hset₄.rest
    obtain ⟨m₅, tf₅, rfl⟩ := hset₅.rest
    exact ⟨m₅, tf₅, rfl⟩
  · rw [hset₅.entry x y (hset₄.live_iff.mpr (hlive₃.mp hx)) hy, hset₄.entry x y (hlive₃.mp hx) hy,
      hs.entry x y hx hy, hva']
    by_cases hU : x = p ∧ VPN y = VPN UCOW
    · rw [if_pos hU, if_pos hU]
    · rw [if_neg hU, if_neg hU, if_neg hU]
  · rw [hframe', hnot₅ _ (hmaps₃.not_isTable hk₃ hgap), hs.copy i hi]
  · rw [hnot₅ f (hs.table f hfm), hs.mem f hfm]

/-- **`sys_set_trapframe(0, sp)`** of the running env brings back the frame that is there. -/
lemma trap_setTrapframe (hroom : sp.toNat % 4096 + TF_SIZE ≤ 4096)
    (hrange : isIllegalVaRange sp (BitVec.ofNat 32 TF_SIZE) = false) (hw : k.entry p sp = some w)
    (hsaved : HoldsFrame (k.pm.mem (pteFrame w)) (sp.toNat % 4096) tf) {tf' : Trapframe}
    (hcall : tf'.Calls (.setTrapframe 0#32 sp)) :
    trap tf' k = .ok () { k with ktf := tf } ∧ KInv T { k with ktf := tf } ∧
      k.Leads { k with ktf := tf } := by
  have hk₁ : KInv T (k.entering tf') := hk.of_eq rfl rfl rfl rfl rfl rfl
  have hload : loadTrapframe sp (k.entering tf') = .ok tf (k.entering tf') :=
    loadTrapframe_run hk₁ hcur hw hroom hsaved
  have hself : (k.entering tf').Resolves 0#32 true p := .self rfl hcur
  obtain ⟨r, k₁, htrap, rfl, rfl⟩ := trap_of_wp (k := k)
      (Q := fun r k₁ => r = tf.regs 10 ∧ k₁ = { k.entering tf' with ktf := tf }) hcall <| by
    rw [Syscall.run, sysSetTrapframe, if_neg (by simp [hrange]), hself.wp, wp_bind, wp_get,
      if_pos (show (k.entering tf').curenv = some p from hcur), wp_bind, wp_of_ok hload, wp_bind,
      wp_modify, wp_pure]
    exact ⟨rfl, rfl⟩
  have hregs : Kernel.returning { k.entering tf' with ktf := tf } (tf.regs 10) =
      { k with ktf := tf } := by
    simp only [Kernel.returning, Trapframe.setReg, Function.update_eq_self]
    rfl
  rw [hregs] at htrap
  exact ⟨htrap, hk.trap_call hgap hcur hcall (fun _ _ hq => by simp [Syscall.mapped] at hq) htrap⟩

/-- **`cow_entry`**, on a frame that has been pushed. -/
lemma cowEntry_run (hframe : ∀ c, (frame c).Calls c) (hva : isIllegalVa tf.badvaddr = false)
    (hw : k.entry p tf.badvaddr = some w) (hcow : HasFlag w PTE_COW)
    (hne : VPN tf.badvaddr ≠ VPN UCOW) (hneX : VPN tf.badvaddr ≠ VPN XSTACK)
    (hno : k.pm.readable (k.envs p).envPgdir (vpt (VPN tf.badvaddr)) = none)
    (hfree : 2 ≤ k.pm.pageFreeList.length) (hsp : XSTACK ≤ xstackSp sp)
    (hx : k.entry p XSTACK = some wx)
    (hsaved : HoldsFrame (k.pm.mem (pteFrame wx)) ((xstackSp sp).toNat % 4096) tf) :
    ∃ k' w', cowEntry frame (xstackSp sp) k = .ok true { k' with ktf := tf } ∧
      (KInv T { k' with ktf := tf } ∧ k.Leads { k' with ktf := tf }) ∧
      Replaced k k' p tf.badvaddr ((pteBits w &&& ~~~PTE_COW) ||| PTE_W) w w' := by
  obtain ⟨hvpn, hroom, hdemand⟩ := xstack_page hsp
  obtain ⟨hpage, halign⟩ := pageStart tf.badvaddr
  have hlive := Kernel.live_of_cur hk hcur
  have hsize : TF_SIZE = 144 := rfl
  have hwx : k.entry p (xstackSp sp) = some wx := (entry_of_VPN hvpn).trans hx
  have hload : loadWord (xstackSp sp + BitVec.ofNat 32 TF_BADVADDR) k = .ok tf.badvaddr k := by
    obtain ⟨hvpn', hoff⟩ := page_add (xstackSp sp) TF_BADVADDR
      (by rw [show TF_BADVADDR = 132 from rfl]; omega)
    refine loadWord_run hk hcur ((entry_of_VPN hvpn').trans hwx) ?_ fun i hi => ?_
    · rw [hoff, show TF_BADVADDR = 132 from rfl]
      omega
    · rw [hoff, Nat.add_assoc, hsaved _ (by rw [show TF_BADVADDR = 132 from rfl]; omega),
        show TF_BADVADDR = 132 from rfl, show (132 + i) / 4 = 33 by omega,
        show (132 + i) % 4 = i by omega]
      rfl
  have hperm : (pteBits w &&& ~~~PTE_COW) ||| PTE_W < 0x400#32 := by
    have hbits := Fork.pteBits_lt w
    rw [BitVec.lt_def] at hbits ⊢
    rw [BitVec.toNat_or, BitVec.toNat_and]
    exact Nat.or_lt_two_pow (n := 10) (lt_of_le_of_lt Nat.and_le_left hbits) (by decide)
  obtain ⟨k₂, k₃, k₄, k₅, w', hrun₂, hrun₃, hrun₄, hrun₅, ⟨hk₅, hl₅⟩, hrep⟩ :=
    replace_run hk hgap hcur hframe hva hpage halign hw hne hperm hfree
  have hcur₅ : k₅.curenv = some p := by
    obtain ⟨m, tf₅, rfl⟩ := hrep.rest
    exact hcur
  have hx₅ : k₅.entry p (xstackSp sp) = some wx := by
    rw [hrep.entry p _ hlive (isOwnVa_of_lt hdemand.2.1), if_neg, if_neg, hwx]
    · exact fun hc => hneX (hc.2.symm.trans hvpn)
    · rintro ⟨-, hc⟩
      exact absurd (hc.symm.trans hvpn) (by decide)
  have hsaved₅ : HoldsFrame (k₅.pm.mem (pteFrame wx)) ((xstackSp sp).toNat % 4096) tf := by
    rw [hrep.mem _ ⟨p, XSTACK, wx, hlive, isOwnVa_XSTACK, hx, rfl⟩]
    exact hsaved
  have hrange : isIllegalVaRange (xstackSp sp) (BitVec.ofNat 32 TF_SIZE) = false := by
    have hle := xstackSp_le sp
    have hU : UTOP.toNat = 0x7f400000 := by decide
    have hadd : (xstackSp sp + BitVec.ofNat 32 TF_SIZE).toNat = (xstackSp sp).toNat + 144 := by
      rw [BitVec.toNat_add, hsize, BitVec.toNat_ofNat]
      omega
    have hlow : UTEMP.toNat ≤ (xstackSp sp).toNat := hdemand.1
    rw [isIllegalVaRange, if_neg (by decide), decide_eq_false_iff_not]
    simp only [BitVec.lt_def, hadd, hU]
    omega
  obtain ⟨hrun₆, hk₆, hl₆⟩ := trap_setTrapframe hk₅ hgap hcur₅ hroom hrange hx₅ hsaved₅
    (hframe (.setTrapframe 0#32 (xstackSp sp)))
  have hdir := Kernel.curPgdir_of_cur hk hcur
  have hwp : wp (cowEntry frame (xstackSp sp)) k (fun b k' => b = true ∧ k' = { k₅ with ktf := tf })
      (fun _ _ => False) fun _ => False := by
    rw [cowEntry, wp_bind, wp_of_ok hload, wp_bind, wp_getCurPgdir]
    refine ⟨fun d hd => ?_, fun hnull => absurd (hdir.symm.trans hnull) (by simp)⟩
    obtain rfl := Option.some.inj (hdir.symm.trans hd)
    rw [wp_bind, wp_get, vptWord_of_entry hno hw]
    dsimp only
    rw [if_neg (not_not.mpr ((hasFlag_pteBits (by decide)).mpr hcow)), wp_bind,
      wp_of_ok hrun₂, wp_bind,
      wp_of_ok hrun₃, wp_bind, wp_of_ok hrun₄, wp_bind, wp_of_ok hrun₅, wp_bind,
        wp_of_ok hrun₆, wp_pure]
    exact ⟨rfl, rfl⟩
  obtain ⟨b, k', hrun, rfl, rfl⟩ := hwp.exists_ok
  exact ⟨k₅, w', hrun, ⟨hk₆, hl₅.trans hl₆⟩, hrep⟩

end

/-- The window shows what it showed. -/
lemma Pushed.window (h : Pushed k k₁ p sp tf wx) (hlive : k.Live p) (hva : isIllegalVa va = false)
    (hno : k.pm.readable (k.envs p).envPgdir (vpt (VPN va)) = none) :
    k₁.pm.readable (k₁.envs p).envPgdir (vpt (VPN va)) = none := by
  have hU : UTOP.toNat = 0x7f400000 := by decide
  have hV : UVPT.toNat = 0x7fc00000 := by decide
  have hlt := lt_UTOP_of_legal hva
  have hvpn : VPN va < VPN UVPT := by
    rw [BitVec.lt_def, hU] at hlt
    rw [BitVec.lt_def, VPN_toNat, VPN_toNat, hV]
    omega
  obtain ⟨hlow, hhigh⟩ := vpt_inWindow hvpn
  rw [BitVec.le_def, hV] at hlow
  rw [BitVec.lt_def, ULIM_toNat] at hhigh
  have hown : IsOwnVa (vpt (VPN va)) := by
    rw [IsOwnVa, ownUser, decide_eq_true_iff, PDX_eq, PDX_UVPT]
    omega
  have hne : VPN (vpt (VPN va)) ≠ VPN XSTACK := by
    rw [ne_eq, ← BitVec.toNat_inj, VPN_toNat, VPN_toNat, show XSTACK.toNat = 0x7f3ff000 by decide]
    omega
  have hsame : k₁.pm.entryAt (k₁.envs p).envPgdir (vpt (VPN va)) =
      k.pm.entryAt (k.envs p).envPgdir (vpt (VPN va)) := h.entry p _ hlive hown fun hc => hne hc.2
  rw [Pmap.readable, Option.bind_eq_none_iff] at hno ⊢
  intro e he
  have hflags := hno e (hsame.symm.trans he)
  split_ifs at hflags ⊢
  rfl

/-- A page that was mapped still is. -/
lemma Pushed.maps (h : Pushed k k₁ p sp tf wx) {f : ℕ} (hf : k.Maps f) : k₁.Maps f := by
  obtain ⟨e, y, w, he, hy, hw, rfl⟩ := hf
  have henvs : k₁.envs = k.envs := by
    obtain ⟨m, tf₁, rfl⟩ := h.rest
    rfl
  refine ⟨e, y, w, by rwa [Kernel.Live, henvs], hy, ?_, rfl⟩
  by_cases hx : e = p ∧ VPN y = VPN XSTACK
  · obtain ⟨rfl, hvpn⟩ := hx
    rw [entry_of_VPN hvpn] at hw ⊢
    rcases h.origin with hsame | ⟨hnone, -⟩
    · rw [h.xstack, ← hsame, hw]
    · exact absurd (hnone.symm.trans hw) (by simp)
  · rw [h.entry e y he hy hx, hw]

/-- The frame is pushed, the page is replaced, and the frame is popped. -/
lemma Pushed.copied {w' : Word} (h : Pushed k k₁ p sp tf wx)
    (hrep : Replaced k₁ k' p va ((pteBits w &&& ~~~PTE_COW) ||| PTE_W) w w') (hlive : k.Live p)
    (hmaps : k.Maps (pteFrame w)) (hneF : pteFrame w ≠ pteFrame wx) (hneX : VPN va ≠ VPN XSTACK)
    (hneU : VPN va ≠ VPN UCOW) (hva : IsOwnVa va) (tf' : Trapframe) :
    CopiedOnWrite k { k' with ktf := tf' } p va w := by
  have henvs : k₁.envs = k.envs := by
    obtain ⟨m, tf₁, rfl⟩ := h.rest
    rfl
  have hl : ∀ {x}, k.Live x → k₁.Live x := by
    intro x hx
    rwa [Kernel.Live, henvs]
  have hneUX : VPN UCOW ≠ VPN XSTACK := by decide
  refine ⟨?_, ⟨w', ?_, hrep.bits, fun i hi => ?_, fun hm => hrep.new (h.maps hm), ?_⟩, ?_,
    ⟨wx, ?_, h.writable, h.origin⟩, fun x y hx hy hne => ?_, fun f hf hne => ?_⟩
  · obtain ⟨m, tf₁, rfl⟩ := h.rest
    obtain ⟨m', tf₂, rfl⟩ := hrep.rest
    exact ⟨m', tf', rfl⟩
  · exact (hrep.entry p va (hl hlive) hva).trans
      (by rw [if_neg fun hc => hneU hc.2, if_pos ⟨rfl, rfl⟩])
  · exact (hrep.copy i hi).trans (congrFun (h.mem _ hmaps hneF) i)
  · intro x y w'' hx hy hw'' hwf
    have hent := (hrep.entry x y (hl hx) hy).symm.trans hw''
    split_ifs at hent with h₁ h₂
    · exact h₂
    · exact absurd ⟨x, y, w'', hl hx, hy, hent, hwf⟩ hrep.new
  · exact (hrep.entry p UCOW (hl hlive) (isOwnVa_of_lt (by decide))).trans (if_pos ⟨rfl, rfl⟩)
  · refine (hrep.entry p XSTACK (hl hlive) isOwnVa_XSTACK).trans ?_
    rw [if_neg fun hc => hneUX hc.2.symm, if_neg fun hc => hneX hc.2.symm, h.xstack]
  · refine (hrep.entry x y (hl hx) hy).trans ?_
    rw [if_neg fun hc => hne ⟨hc.1, .inr (.inl hc.2)⟩, if_neg fun hc => hne ⟨hc.1, .inl hc.2⟩]
    exact h.entry x y hx hy fun hc => hne ⟨hc.1, .inr (.inr hc.2)⟩
  · have hneW : f ≠ pteFrame wx := by
      rcases h.origin with hx | ⟨-, hnew⟩
      · exact hne wx hx
      · exact fun hc => hnew (hc ▸ hf)
    exact (hrep.mem f (h.maps hf)).trans (h.mem f hf hneW)

/-- A store fault on a page that is to be copied on write ends in the copy. -/
lemma trapToCow_run (hk : KInv T k) (hgap : T.gap = true) (hfault : CowFault k p cow tf w)
    (hframe : ∀ c, (frame c).Calls c) :
    ∃ k', trapToCow cow frame tf k = .ok true k' ∧ k'.ktf = tf ∧
      CopiedOnWrite k k' p tf.badvaddr w ∧ KInv T k' ∧ k.Leads k' := by
  have hlive := Kernel.live_of_cur hk hfault.cur
  have hown := isOwnVa_of_lt (lt_UTOP_of_legal hfault.legal)
  have hmaps : k.Maps (pteFrame w) := ⟨p, _, w, hlive, hown, hfault.entry, rfl⟩
  have hneX : VPN tf.badvaddr ≠ VPN XSTACK := by
    intro hc
    have hx : k.entry p XSTACK = some w := (entry_of_VPN hc).symm.trans hfault.entry
    exact hfault.readOnly (hfault.xstack w hx).1
  have hmem := hfault.memory
  obtain ⟨k₁, wx, hrun₁, ⟨hk₁, hl₁⟩, hpush, hsp, hepc⟩ :=
    trap_userMod hk hgap hfault.cur hfault.handler
    hfault.handler_ne hfault.cause hfault.entry hfault.readOnly hfault.room
    (fun wx hx => (hfault.xstack wx hx).1) (by omega)
  have hcur₁ : k₁.curenv = some p := by
    obtain ⟨m, tf₁, rfl⟩ := hpush.rest
    exact hfault.cur
  have hw₁ : k₁.entry p tf.badvaddr = some w := by
    rw [hpush.entry p _ hlive hown fun hc => hneX hc.2, hfault.entry]
  have hneF : pteFrame w ≠ pteFrame wx := by
    rcases hpush.origin with hx | ⟨-, hnew⟩
    · exact ((hfault.xstack wx hx).2).symm
    · exact fun hc => hnew (hc ▸ hmaps)
  have hwin := hpush.window hlive hfault.legal hfault.window
  have hfree := hpush.free
  obtain ⟨k₂, w', hrun₂, ⟨hk₂, hl₂⟩, hrep⟩ := cowEntry_run hk₁ hgap hcur₁ hframe hfault.legal hw₁
    hfault.toCopy hfault.ne_UCOW hneX hwin (by omega) hfault.room hpush.xstack hpush.frame
  have hwp : wp (trapToCow cow frame tf) k (fun b k' => b = true ∧ k' = { k₂ with ktf := tf })
      (fun _ _ => False) fun _ => False := by
    rw [trapToCow, wp_bind, wp_of_ok hrun₁, wp_bind, wp_get, if_pos hepc, hsp, wp_of_ok hrun₂]
    exact ⟨rfl, rfl⟩
  obtain ⟨b, k', hrun, rfl, rfl⟩ := hwp.exists_ok
  exact ⟨_, hrun, rfl, hpush.copied hrep hlive hmaps hneF hneX hfault.ne_UCOW hown tf, hk₂,
    hl₁.trans hl₂⟩

/-- **Copy-on-write faults are transparent to the code that faults.**  Take a store fault of the
running env on a page that is marked to be copied on write, in any state that the machine reaches,
with room for one more frame on the exception stack and four free pages.  The kernel and `cow_entry`
come back with the very frame of the fault, so that the store is tried again; the page is a private
copy of what it was, writable and no longer marked; no other mapping of any env, and no other page,
has changed, but for the exception stack and `UCOW`; and the machine gets to this state by the traps
and the stores that are made. -/
theorem cow_fault_transparent {mc : Machine} {k : Kernel} {p : ℕ} {cow w : Word} {tf : Trapframe}
    {frame : Syscall → Trapframe} (h : Reaches mc (fun k ev => ev.Admissible k) k)
    (hfault : CowFault k p cow tf w) (hframe : ∀ c, (frame c).Calls c) :
    ∃ k', trapToCow cow frame tf k = .ok true k' ∧ k'.ktf = tf ∧
      CopiedOnWrite k k' p tf.badvaddr w ∧ Reaches mc (fun k ev => ev.Admissible k) k' := by
  obtain ⟨T, -, -, hgap, hk⟩ := h.kInv fun _ _ hc => hc
  obtain ⟨k', hrun, hktf, hcopied, -, hl⟩ := trapToCow_run hk hgap hfault hframe
  exact ⟨k', hrun, hktf, hcopied, hl.reaches h⟩

/-- No page of a new env is mapped where `vpt` and `vpd` are read. -/
lemma Populated.window {mc : Machine} {T : Template} {k : Kernel} {c e : ℕ} {va : Word}
    (h : Populated mc T c k) (hgap : T.gap = false) (he : k.Live e) (hlo : UVPT ≤ va)
    (hhi : va < ULIM) :
    k.entry e va = none := by
  have hU : UVPT.toNat = 0x7fc00000 := by decide
  rw [BitVec.le_def, hU] at hlo
  rw [BitVec.lt_def, ULIM_toNat] at hhi
  have hpdx : PDX va = PDX UVPT := by
    rw [PDX_eq, PDX_eq, hU]
    omega
  have hpde := (h.kInv.aboveUtop h.kInv hgap e he).1 (PDX UVPT) (by decide) (by decide)
  rw [if_pos rfl] at hpde
  have hv : ¬ HasFlag (k.pm.pde (k.envs e).envPgdir va) PTE_V := by
    rw [Pmap.pde, hpdx, hpde]
    exact not_hasFlag_zero _
  rw [Kernel.entry, Pmap.entryAt, Pmap.walk_of_not_valid hv, Option.bind_none]

/-- A store to a page that has been allocated to be copied on write. -/
lemma cowFault_allocated {k k' : Kernel} {pp : ℕ} (hcur : k.curenv = some 0)
    (hhandler : (k.envs 0).envUserTlbModEntry = UTEXT) (hlive : k.Live 0) (hpp : pp < 0x80000)
    (hset : k.Remapped k' 0 (2 * UTEXT) (some (insertedWord none pp (PTE_COW ||| PTE_U))))
    (hx : k.entry 0 XSTACK = none) (hwindow : k.entry 0 (vpt (VPN (2 * UTEXT))) = none)
    (hroom : 4 ≤ k'.pm.pageFreeList.length) :
    CowFault k' 0 UTEXT { zeroTf with cause := CAUSE_FAULT_STORE, badvaddr := 2 * UTEXT }
      (insertedWord none pp (PTE_COW ||| PTE_U)) := by
  refine ⟨hset.curenv_eq.trans hcur, ?_, by decide, rfl, by decide,
    hset.entry_self hlive (isOwnVa_of_lt (by decide)), ?_, ?_, by decide, by decide,
      fun wx hwx => ?_, ?_,
    hroom⟩
  · rw [hset.envs_eq, hhandler]
  · exact (hasFlag_insertedWord_iff hpp (by decide) (by decide)).mpr (by decide)
  · exact mt (hasFlag_insertedWord_iff hpp (by decide) (by decide)).mp (by decide)
  · have hne : VPN XSTACK ≠ VPN (2 * UTEXT) := by decide
    rw [hset.entry_of_ne hlive isOwnVa_XSTACK fun hc => hne hc.2, hx] at hwx
    cases hwx
  · have hne : VPN (vpt (VPN (2 * UTEXT))) ≠ VPN (2 * UTEXT) := by decide
    have hnone : k'.pm.entryAt (k'.envs 0).envPgdir (vpt (VPN (2 * UTEXT))) = none :=
      (hset.entry_of_ne hlive (by rw [IsOwnVa]; decide) fun hc => hne hc.2).trans hwindow
    rw [Pmap.readable, hnone, Option.bind_none]

/-- Env 0 is alone, has registered a handler, and maps the page of its code only. -/
structure Registered (k : Kernel) : Prop where
  cur : k.curenv = some 0
  handler : (k.envs 0).envUserTlbModEntry = UTEXT
  live : ∀ q, k.Live q ↔ q = 0
  empty : ∀ va, va < UTOP ∨ UVPT ≤ va ∧ va < ULIM → VPN va ≠ VPN ecallVa → k.entry 0 va = none
  room : 30 ≤ k.pm.pageFreeList.length
  free : k.envFreeList.head? = some 1
  asid : k.HasAsid
  mkenvid : k.mkenvidI = 1#32

lemma exists_registered : ∃ k, Reaches (smallMachine false) (fun k ev => ev.Admissible k) k ∧
    Registered k := by
  have hnocall : ∀ {tf : Trapframe}, tf.cause ≠ CAUSE_USER_ECALL →
      ∀ k, (Event.trap tf).Admissible k := fun hne k call hcall => absurd hcall.1 hne
  obtain ⟨k₀, T₀, k, hk₀, hfrom, hgap₀, hcur, hpop⟩ := exists_started false
    (C := fun k ev => ev.Admissible k) (fun _ _ => trivial) (fun k => hnocall (by decide) k)
    (show 0 < NASID by decide)
  have hreach := hfrom.reaches hk₀
  obtain ⟨T, -, -, hgap, hk⟩ := hreach.kInv fun _ _ hc => hc
  obtain ⟨k₁, tf₁, hrun, ⟨-, hl⟩, hk₁⟩ := trap_setTlbModEntry hk hgap hcur
    (Syscall.frame_calls (.setTlbModEntry 0#32 UTEXT))
  have hent : ∀ va, k₁.entry 0 va = k.entry 0 va := fun va => by simp [Kernel.entry, hk₁]
  have hlive : ∀ q, k.Live q ↔ q = 0 := by
    intro q
    rcases Nat.eq_zero_or_pos q with rfl | hpos
    · simp [Kernel.Live, (hpop.born 0 (by decide)).1]
    · simp [Kernel.Live, hpop.unborn q hpos, zeroEnv, hpos.ne']
  refine ⟨k₁, hl.reaches hreach, by rw [hk₁, hcur], by simp [hk₁], fun q => ?_,
    fun va hva hne => ?_, ?_, ?_, ?_, by rw [hk₁, hpop.mkenvid]⟩
  · rw [← hlive q]
    by_cases hq : q = 0 <;> simp [Kernel.Live, hk₁, hq]
  · rw [hent]
    rcases hva with hlt | ⟨hlo, hhi⟩
    · exact hpop.empty 0 (by decide) va hlt hne
    · exact hpop.window hgap₀ ((hlive 0).mpr rfl) hlo hhi
  · have hfix := smallMachine_room false (c := 10) (by decide)
    have hroom := hpop.room
    have hpm : k₁.pm = k.pm := by rw [hk₁]
    rw [hpm]
    omega
  · rw [hk₁, hpop.free]
    rfl
  · rw [hk₁, Kernel.HasAsid, ne_eq, List.find?_eq_none]
    intro hall
    have hone := hall 1 (by decide)
    rw [hpop.asid] at hone
    exact hone rfl

/-- Env 0 maps a page that is marked to be copied on write, and stores to it. -/
theorem cow_fault_transparent_small : ∃ k k' w tf,
    Reaches (smallMachine false) (fun k ev => ev.Admissible k) k ∧ CowFault k 0 UTEXT tf w ∧
      trapToCow UTEXT Syscall.frame tf k = .ok true k' ∧ k'.ktf = tf ∧
      CopiedOnWrite k k' 0 tf.badvaddr w := by
  obtain ⟨k₁, hreach, h⟩ := exists_registered
  obtain ⟨T, -, -, hgap, hk₁⟩ := hreach.kInv fun _ _ hc => hc
  obtain ⟨k₂, pp, rest, hrun, hf, ⟨hk₂, hl⟩, hset, -, hlen, -⟩ := trap_memAlloc hk₁ hgap h.cur
    (by decide : isIllegalVa (2 * UTEXT) = false) (by decide : PTE_COW < 0x400)
    (by have := h.room; omega) (Syscall.frame_calls _)
  have hpp : pp < 0x80000 := hk₁.pages.free_lt pp (by rw [hf]; exact List.mem_cons_self)
  rw [h.empty _ (.inl (by decide)) (by decide)] at hset
  have hroom := h.room
  rw [hf, List.length_cons] at hroom
  have hfault := cowFault_allocated h.cur h.handler ((h.live 0).mpr rfl) hpp hset
    (h.empty _ (.inl (by decide)) (by decide))
    (h.empty _ (.inr ⟨by decide, by decide⟩) (by decide)) (by omega)
  have hreach₂ := hl.reaches hreach
  obtain ⟨k', hrun', hktf, hcopied, -⟩ := cow_fault_transparent hreach₂ hfault Syscall.frame_calls
  exact ⟨k₂, k', _, _, hreach₂, hfault, hrun', hktf, hcopied⟩

end

end MosRv
