import MosRv.EnvTable
import MosRv.Window

/-!
# Fork (`user/lib/fork.c`)

`fork` is user code: `sys_exofork` gives it a child with an empty address space, and it maps every
page it has below `USTACKTOP` into the child, one `sys_mem_map` at a time.  `Fork.Step` takes these
steps one by one, between any other events of the machine that leave the child alone; loads from the
windows `vpt` and `vpd` find what `Kernel.windowWord` says.

`Fork.State.AllOrNothing` is what `fork` is to do: the child it returns has every page, or there is
no child.  As `duppage` ignores what `sys_mem_map` returns, this holds exactly where every one of
these calls succeeds (`fork_all_or_nothing_iff`): each finds a page table in the child, or a free
page for one.  With one page left, for the child's page directory, the child that `fork` returns is
empty (`fork_child_empty`).
-/

namespace MosRv

open Prog Reach

/-- The entry of the virtual page `v` of `e`. -/
def Kernel.pageEntry (k : Kernel) (e v : ℕ) : Option Word :=
  k.pm.entryAt (k.envs e).envPgdir (BitVec.ofNat 32 v <<< 12)

/-- A system call of the running env, which returns `r`. -/
def Kernel.Calls (k : Kernel) (call : Syscall) (r : Word) (k' : Kernel) : Prop :=
  ∃ tf : Trapframe, tf.Calls call ∧ (Event.trap tf).Admissible k ∧ Step k (.trap tf) k' ∧
    k'.ktf.regs 10 = r

lemma Kernel.Calls.reaches {mc : Machine} {k k' : Kernel} {call : Syscall} {r : Word}
    (h : k.Calls call r k') (hk : Reaches mc (fun k ev => ev.Admissible k) k) :
    Reaches mc (fun k ev => ev.Admissible k) k' := by
  obtain ⟨tf, -, hadm, hstep, -⟩ := h
  exact hk.step ⟨hadm, hstep⟩

namespace Fork

/-! ## The code -/

/-- The entries of the page directory that `fork` looks at. -/
def pdes : ℕ := PDX (ROUND USTACKTOP PDMAP)

/-- What `duppage` makes of the permissions of a page, and whether it maps the page again in the
parent: a page that is writable and not shared is to be copied on write. -/
def duppage (perm : Word) : Word × Bool :=
  if ¬ HasFlag perm PTE_W ∨ HasFlag perm PTE_LIBRARY then (perm, false)
  else ((perm &&& ~~~PTE_W) ||| PTE_COW, true)

/-- Where `fork` is.  `child` is what `sys_exofork` returned. -/
inductive Pc
  /-- Before `syscall_set_tlb_mod_entry(0, cow_entry)`. -/
  | entry
  | exofork
  /-- Before the test of `vpd[i]`. -/
  | pde (child : Word) (i : ℕ)
  /-- Before the test of `vpt[(i << 10) | j]`. -/
  | pte (child : Word) (i j : ℕ)
  /-- In `duppage(child, (i << 10) | j)`, before it reads the permissions … -/
  | dup (child : Word) (i j : ℕ)
  /-- … before it maps the page in the child … -/
  | map (child : Word) (i j : ℕ) (perm : Word) (again : Bool)
  /-- … and before it maps it in the parent again. -/
  | remap (child : Word) (i j : ℕ) (perm : Word)
  | setEntry (child : Word)
  | setStatus (child : Word)
  | returned (r : Word)

/-- A call of `fork`.  The last two fields keep the state in which `sys_exofork` was called and, for
every virtual page, the state in which `fork` was done with it, and whether `duppage` was called. -/
structure State where
  k : Kernel
  pc : Pc
  forkedAt : Option Kernel
  passed : ℕ → Option (Kernel × Bool)

namespace State

variable (x : State)

def goto (pc : Pc) : State := { x with pc := pc }

/-- `e` is a child of `p` that was created after the call of `sys_exofork`. -/
def NewChild (p e : ℕ) : Prop :=
  ∃ k₁, x.forkedAt = some k₁ ∧ (k₁.envs e).envStatus = .free ∧ (x.k.envs e).envStatus ≠ .free ∧
    (x.k.envs e).envParentId = (x.k.envs p).envId

/-- What else happens in the machine neither makes nor touches a child of `p`. -/
structure LeavesAlone (p : ℕ) (k' : Kernel) : Prop where
  parent : (k'.envs p).envId = (x.k.envs p).envId
  new : ∀ e, { x with k := k' }.NewChild p e → x.NewChild p e
  live : ∀ e, x.NewChild p e → (k'.envs e).envStatus ≠ .free
  envId : ∀ e, x.NewChild p e → (k'.envs e).envId = (x.k.envs e).envId
  envParentId : ∀ e, x.NewChild p e → (k'.envs e).envParentId = (x.k.envs e).envParentId
  space : ∀ e, x.NewChild p e → ∀ v < (VPN UTOP).toNat, k'.pageEntry e v = x.k.pageEntry e v

end State

/-- **The steps of a call of `fork`** in the env `p`, where `cow` is the address of `cow_entry`. -/
inductive Step (p : ℕ) (cow : Word) (x : State) : State → Prop
  | other {ev : Event} {k' : Kernel} (hpc : ∀ r, x.pc ≠ .returned r) (hstep : MosRv.Step x.k ev k')
      (hadm : ev.Admissible x.k) (halone : x.LeavesAlone p k') : Step p cow x { x with k := k' }
  | entrySet (hpc : x.pc = .entry) (hcur : x.k.curenv = some p)
      (hset : (x.k.envs p).envUserTlbModEntry = cow) : Step p cow x (x.goto .exofork)
  | entryCall {r : Word} {k' : Kernel} (hpc : x.pc = .entry) (hcur : x.k.curenv = some p)
      (hset : (x.k.envs p).envUserTlbModEntry ≠ cow)
      (hcall : x.k.Calls (.setTlbModEntry 0#32 cow) r k') :
      Step p cow x { x with k := k', pc := if r ≠ 0#32 then .returned r else .exofork }
  | exofork {r : Word} {k' : Kernel} (hpc : x.pc = .exofork) (hcur : x.k.curenv = some p)
      (hcall : x.k.Calls .exofork r k') :
      Step p cow x { x with
        k := k', pc := if r = 0#32 then .returned 0#32 else .pde r 0, forkedAt := some x.k }
  | pde {child : Word} {i : ℕ} (hpc : x.pc = .pde child i) (hcur : x.k.curenv = some p)
      (hi : i < pdes) (hv : HasFlag (x.k.vpdWord (x.k.envs p).envPgdir i) PTE_V) :
      Step p cow x (x.goto (.pte child i 0))
  | pdeSkip {child : Word} {i : ℕ} (hpc : x.pc = .pde child i) (hcur : x.k.curenv = some p)
      (hi : i < pdes) (hv : ¬ HasFlag (x.k.vpdWord (x.k.envs p).envPgdir i) PTE_V) :
      Step p cow x { x with
        pc := .pde child (i + 1)
        passed := fun v => if v / 1024 = i then some (x.k, false) else x.passed v }
  | pdeEnd {child : Word} {i : ℕ} (hpc : x.pc = .pde child i) (hcur : x.k.curenv = some p)
      (hi : pdes ≤ i) : Step p cow x (x.goto (.setEntry child))
  | pte {child : Word} {i j : ℕ} (hpc : x.pc = .pte child i j) (hcur : x.k.curenv = some p)
      (hj : j < 1024) (hlt : i * 1024 + j < (VPN USTACKTOP).toNat)
      (hv : HasFlag (x.k.vptWord (x.k.envs p).envPgdir (i * 1024 + j)) PTE_V) :
      Step p cow x (x.goto (.dup child i j))
  | pteSkip {child : Word} {i j : ℕ} (hpc : x.pc = .pte child i j) (hcur : x.k.curenv = some p)
      (hj : j < 1024) (hno : ¬ (i * 1024 + j < (VPN USTACKTOP).toNat ∧
        HasFlag (x.k.vptWord (x.k.envs p).envPgdir (i * 1024 + j)) PTE_V)) :
      Step p cow x { x with
        pc := .pte child i (j + 1)
        passed := Function.update x.passed (i * 1024 + j) (some (x.k, false)) }
  | pteEnd {child : Word} {i j : ℕ} (hpc : x.pc = .pte child i j) (hcur : x.k.curenv = some p)
      (hj : 1024 ≤ j) : Step p cow x (x.goto (.pde child (i + 1)))
  | dup {child : Word} {i j : ℕ} (hpc : x.pc = .dup child i j) (hcur : x.k.curenv = some p) :
      Step p cow x (x.goto (.map child i j
        (duppage (pteBits (x.k.vptWord (x.k.envs p).envPgdir (i * 1024 + j)))).1
        (duppage (pteBits (x.k.vptWord (x.k.envs p).envPgdir (i * 1024 + j)))).2))
  | map {child : Word} {i j : ℕ} {perm : Word} {again : Bool} {r : Word} {k' : Kernel}
      (hpc : x.pc = .map child i j perm again) (hcur : x.k.curenv = some p)
      (hcall : x.k.Calls (.memMap 0#32 (BitVec.ofNat 32 (i * 1024 + j) <<< 12) child
        (BitVec.ofNat 32 (i * 1024 + j) <<< 12) perm) r k') :
      Step p cow x { x with
        k := k', pc := if again then .remap child i j perm else .pte child i (j + 1)
        passed := Function.update x.passed (i * 1024 + j) (some (x.k, true)) }
  | remap {child : Word} {i j : ℕ} {perm : Word} {r : Word} {k' : Kernel}
      (hpc : x.pc = .remap child i j perm) (hcur : x.k.curenv = some p)
      (hcall : x.k.Calls (.memMap 0#32 (BitVec.ofNat 32 (i * 1024 + j) <<< 12) 0#32
        (BitVec.ofNat 32 (i * 1024 + j) <<< 12) perm) r k') :
      Step p cow x { x with k := k', pc := .pte child i (j + 1) }
  | setEntry {child r : Word} {k' : Kernel} (hpc : x.pc = .setEntry child)
      (hcur : x.k.curenv = some p) (hcall : x.k.Calls (.setTlbModEntry child cow) r k') :
      Step p cow x { x with k := k', pc := .setStatus child }
  | setStatus {child r : Word} {k' : Kernel} (hpc : x.pc = .setStatus child)
      (hcur : x.k.curenv = some p)
      (hcall : x.k.Calls (.setEnvStatus child EnvStatus.runnable.toWord) r k') :
      Step p cow x { x with k := k', pc := .returned child }

/-- `fork` is called, in a state that the machine reaches. -/
structure Starts (mc : Machine) (p : ℕ) (x : State) : Prop where
  reached : MosRv.Reaches mc (fun k ev => ev.Admissible k) x.k
  cur : x.k.curenv = some p
  pc : x.pc = .entry
  forkedAt : x.forkedAt = none
  passed : ∀ v, x.passed v = none

/-- The states of a call of `fork`. -/
def Reaches (mc : Machine) (p : ℕ) (cow : Word) : State → Prop :=
  Reachable (Starts mc p) fun x (_ : Unit) x' => Step p cow x x'

/-! ## All or nothing -/

/-- `sys_exofork` fails. -/
def ForkFails (k : Kernel) : Prop :=
  k.envFreeList = [] ∨ k.pm.pageFreeList = [] ∨ ¬ k.HasAsid

/-- `duppage` maps the page `v` in the child: it is called, `sys_mem_map` takes the address, and
there is a page table for it, or a page for one. -/
def CanCopy (k : Kernel) (shown : Bool) (c v : ℕ) : Prop :=
  shown = true ∧ isIllegalVa (BitVec.ofNat 32 v <<< 12) = false ∧
    (HasFlag (k.pm.pde (k.envs c).envPgdir (BitVec.ofNat 32 v <<< 12)) PTE_V ∨
      k.pm.pageFreeList ≠ [])

instance (k : Kernel) (shown : Bool) (c v : ℕ) : Decidable (CanCopy k shown c v) :=
  inferInstanceAs (Decidable (_ ∧ _))

namespace State

variable (x : State)

/-- **What `fork` is to do**, when it returns `r`. -/
def AllOrNothing (p : ℕ) (r : Word) : Prop :=
  if 0 < r.toInt then
    ∃ c, x.NewChild p c ∧ (x.k.envs c).envId = r ∧ ∀ v < (VPN USTACKTOP).toNat, ∃ k₂ shown,
      x.passed v = some (k₂, shown) ∧ ∀ w, k₂.pageEntry p v = some w →
        (x.k.pageEntry c v).map pteFrame = some (pteFrame w)
  else r.toInt < 0 ∧ ∀ c, x.NewChild p c → (x.k.envs c).envStatus ≠ .runnable

/-- **What that takes**: no child, or one whose id is a positive number and a mapping call that
succeeds for each of the parent's pages. -/
def Suffices (p : ℕ) : Prop :=
  ∃ k₁, x.forkedAt = some k₁ ∧ (ForkFails k₁ ∨ ∃ c rest, k₁.envFreeList = c :: rest ∧
    0 < (k₁.nextId c).toInt ∧ ∀ v < (VPN USTACKTOP).toNat, ∀ k₂ shown,
      x.passed v = some (k₂, shown) → k₂.pageEntry p v ≠ none → CanCopy k₂ shown c v)

end State

/-! ## The calls -/

section

variable {T : Template} {k k' : Kernel} {p c v : ℕ} {call : Syscall} {r child perm cow : Word}

lemma returning_reg (k : Kernel) (r : Word) : (k.returning r).ktf.regs 10 = r := by
  simp [Kernel.returning, Trapframe.setReg]

/-- What the handler of a call does, once the call is done. -/
lemma calls_of_wp {Q : Word → Kernel → Prop} (h : k.Calls call r k')
    (hwp : ∀ tf : Trapframe, wp call.run (k.entering tf) Q
      (fun x k₁ => ∃ err, x = .code err ∧ Q (-err.toWord) k₁) fun _ => True) :
    ∃ k₁, k' = k₁.returning r ∧ Q r k₁ := by
  obtain ⟨tf, hcall, -, ⟨-, hstep⟩, rfl⟩ := h
  have htrap : wp (trap tf) k (fun _ k' => ∃ k₁, k' = k₁.returning (k'.ktf.regs 10) ∧
      Q (k'.ktf.regs 10) k₁) (fun _ _ => False) fun _ => True := by
    rw [wp_trap_call hcall]
    refine (hwp tf).mono (fun r k₁ hq => ?_) ?_ fun _ hp => hp
    · exact ⟨k₁, by rw [returning_reg], by rwa [returning_reg]⟩
    · rintro x k₁ ⟨err, rfl, hq⟩
      exact ⟨k₁, by rw [returning_reg], by rwa [returning_reg]⟩
  rcases hstep with hok | hexit
  · exact htrap.of_ok hok
  · exact (htrap.of_exit hexit).elim

/-- The envs are the same, as far as `fork` is concerned. -/
structure Family (k k' : Kernel) : Prop where
  envId : ∀ e, (k'.envs e).envId = (k.envs e).envId
  envParentId : ∀ e, (k'.envs e).envParentId = (k.envs e).envParentId
  envPgdir : ∀ e, (k'.envs e).envPgdir = (k.envs e).envPgdir
  free : ∀ e, (k'.envs e).envStatus = .free ↔ (k.envs e).envStatus = .free

lemma Family.of_envs (h : k'.envs = k.envs) : Family k k' := by
  constructor <;> simp [h]

lemma Family.update {e : ℕ} {u : Env} (henvs : k'.envs = Function.update k.envs e u)
    (hid : u.envId = (k.envs e).envId) (hparent : u.envParentId = (k.envs e).envParentId)
    (hdir : u.envPgdir = (k.envs e).envPgdir)
    (hfree : u.envStatus = .free ↔ (k.envs e).envStatus = .free) : Family k k' := by
  constructor <;> intro e' <;> by_cases hee :
    e' = e <;> simp [henvs, hee, hid, hparent, hdir, hfree]

lemma calls_setTlbModEntry (h : k.Calls (.setTlbModEntry child cow) r k') :
    Family k k' ∧ k'.pm = k.pm := by
  obtain ⟨k₁, rfl, hfam, hpm⟩ :=
    calls_of_wp (Q := fun _ k₁ => Family k k₁ ∧ k₁.pm = k.pm) h fun tf => by
    refine wp_envid2env_bind ⟨_, rfl, .of_envs rfl, rfl⟩ fun e _ => ?_
    rw [wp_bind, wp_modifyEnv, wp_pure]
    exact ⟨.update (e := e) rfl rfl rfl rfl Iff.rfl, rfl⟩
  exact ⟨⟨hfam.envId, hfam.envParentId, hfam.envPgdir, hfam.free⟩, hpm⟩

lemma calls_setEnvStatus (hinv : EnvInv k)
    (h : k.Calls (.setEnvStatus child EnvStatus.runnable.toWord) r k') :
    Family k k' ∧ k'.pm = k.pm ∧
      (k.Resolves child true c → (k'.envs c).envStatus = .runnable) := by
  obtain ⟨k₁, rfl, hfam, hpm, hc⟩ := calls_of_wp (Q := fun _ k₁ => Family k k₁ ∧ k₁.pm = k.pm ∧
      (k.Resolves child true c → (k₁.envs c).envStatus = .runnable)) h fun tf => by
    have hrun : Syscall.run (.setEnvStatus child EnvStatus.runnable.toWord) =
        setEnvStatus child .runnable := by
      rw [Syscall.run, sysSetEnvStatus, if_pos rfl]
    rw [hrun, setEnvStatus]
    by_cases hres : ∃ e, k.Resolves child true e
    · obtain ⟨e, he⟩ := hres
      have hdone : ∀ q, Family k ((k.entering tf).withStatus e .runnable q) ∧
          ((k.entering tf).withStatus e .runnable q).pm = k.pm ∧ (k.Resolves child true c →
            (((k.entering tf).withStatus e .runnable q).envs c).envStatus = .runnable) := by
        refine fun q => ⟨.update (e := e) rfl rfl rfl rfl ?_, rfl, fun hc => ?_⟩
        · exact iff_of_false (by simp) (hinv.live_of_resolves he)
        · obtain rfl := hc.unique he
          exact congrArg Env.envStatus (Function.update_self c _ k.envs)
      have he' : (k.entering tf).Resolves child true e := he.setKtf _
      rw [he'.wp, wp_bind, updateSchedList, wp_bind, wp_get, wp_ite]
      refine ⟨fun _ => ?_, fun _ => ?_⟩
      · rw [if_pos rfl]
        refine wp_onSchedList_of fun q _ _ => ?_
        rw [wp_bind, wp_modifyEnv, wp_pure]
        exact hdone q
      · rw [wp_pure, wp_bind, wp_modifyEnv, wp_pure]
        exact hdone k.envSchedList
    · exact wp_envid2env_bind ⟨_, rfl, .of_envs rfl, rfl, fun hc => absurd ⟨c, hc⟩ hres⟩
        fun e he => absurd ⟨e, he.of_setKtf⟩ hres
  exact ⟨⟨hfam.envId, hfam.envParentId, hfam.envPgdir, hfam.free⟩, hpm, hc⟩

/-! ## The mapping calls -/

lemma page_lt (hv : v < (VPN UTOP).toNat) :
    (BitVec.ofNat 32 v <<< 12).toNat = v * 4096 ∧ (BitVec.ofNat 32 v <<< 12 : Word) < UTOP := by
  have hU : (VPN UTOP).toNat = 0x7f400 := by decide
  have hT : UTOP.toNat = 0x7f400000 := by decide
  have hnat : (BitVec.ofNat 32 v <<< 12).toNat = v * 4096 := by
    rw [BitVec.toNat_shiftLeft, BitVec.toNat_ofNat, Nat.shiftLeft_eq]
    omega
  exact ⟨hnat, by rw [BitVec.lt_def, hnat, hT]; omega⟩

/-- The page that an entry names is in use. -/
lemma target_pageEntry {e : ℕ} {w : Word} (hlive : (k.envs e).envStatus ≠ .free)
    (hv : v < (VPN UTOP).toNat) (hw : k.pageEntry e v = some w) :
    target T.own k.dirs k.pm (.pte e (PDX (BitVec.ofNat 32 v <<< 12))
      (PTX (BitVec.ofNat 32 v <<< 12))) = some (pteFrame w) := by
  have ho : T.own (PDX (BitVec.ofNat 32 v <<< 12)) = true := own_of_lt_UTOP (page_lt hv).2
  rw [target, ← entryAt_eq_slotWord ho (dirs_of_ne_free hlive)]
  exact congrArg (Option.map pteFrame) hw

lemma VPN_page {u : ℕ} (hu : u < (VPN UTOP).toNat) (hv : v < (VPN UTOP).toNat) :
    VPN (BitVec.ofNat 32 u <<< 12) = VPN (BitVec.ofNat 32 v <<< 12) ↔ u = v := by
  rw [← BitVec.toNat_inj, VPN_toNat, VPN_toNat, (page_lt hu).1, (page_lt hv).1]
  omega

lemma pteBits_lt (w : Word) : pteBits w < 0x400#32 := by
  rw [BitVec.lt_def, pteBits, BitVec.toNat_and]
  exact lt_of_le_of_lt Nat.and_le_right (by decide)

lemma duppage_lt (w : Word) : (duppage (pteBits w)).1 < 0x400#32 := by
  have hlt := pteBits_lt w
  rw [duppage]
  split_ifs
  · exact hlt
  · have h10 : (pteBits w).toNat < 2 ^ 10 := hlt
    rw [BitVec.lt_def, BitVec.toNat_or, BitVec.toNat_and]
    exact Nat.or_lt_two_pow (lt_of_le_of_lt Nat.and_le_left h10) (by decide)

lemma or_PTE_U_lt (h : perm < 0x400#32) : perm ||| PTE_U < 0x400#32 := by
  have h10 : perm.toNat < 2 ^ 10 := h
  rw [BitVec.lt_def, BitVec.toNat_or]
  exact Nat.or_lt_two_pow h10 (by decide)

/-- `c` is the child of the running env `p` that `child` names. -/
structure IsChild (k : Kernel) (p c : ℕ) (child : Word) : Prop where
  cur : k.curenv = some p
  ne : c ≠ p
  slot : c < NENV
  ne_zero : child ≠ 0#32
  live : (k.envs c).envStatus ≠ .free
  envId : (k.envs c).envId = child
  envParentId : (k.envs c).envParentId = (k.envs p).envId

lemma IsChild.resolves (h : IsChild k p c child) (hinv : EnvInv k) : k.Resolves child true c := by
  have hmod := (hinv.live_id c h.live).2
  have hNENV : NENV = 1024 := rfl
  have hslot := h.slot
  rw [h.envId] at hmod
  have hx : ENVX child = c :=
    ENVX_toNat (n := child.toNat / 2048) hslot (by omega)
  have hres : k.Resolves child true (ENVX child) := .other h.ne_zero (hx.symm ▸ h.live)
    (hx.symm ▸ h.envId) fun _ => ⟨p, h.cur, .inr (hx.symm ▸ h.envParentId)⟩
  rwa [hx] at hres

/-- **`sys_mem_map(0, va, child, va, perm)`**, for a page that the child does not have. -/
lemma calls_map (h : KInv T k) (hinv : EnvInv k) (hc : IsChild k p c child)
    (hv : v < (VPN UTOP).toNat) (hnone : k.pageEntry c v = none) (hperm : perm < 0x400#32)
    (hcall : k.Calls (.memMap 0#32 (BitVec.ofNat 32 v <<< 12) child (BitVec.ofNat 32 v <<< 12) perm)
      r k') :
    k'.envs = k.envs ∧ ∀ u < (VPN UTOP).toNat, (k'.pageEntry c u).map pteFrame =
      if u = v ∧ CanCopy k true c v then (k.pageEntry p v).map pteFrame
      else (k.pageEntry c u).map pteFrame := by
  obtain ⟨hva, hlt⟩ := page_lt hv
  have hd : k.dirs c = some (k.envs c).envPgdir := dirs_of_ne_free hc.live
  have ho : T.own (PDX (BitVec.ofNat 32 v <<< 12)) = true := own_of_lt_UTOP hlt
  obtain ⟨k₁, rfl, henvs, hent⟩ := calls_of_wp (Q := fun _ k₁ => k₁.envs = k.envs ∧
      ∀ u < (VPN UTOP).toNat, (k₁.pageEntry c u).map pteFrame =
        if u = v ∧ CanCopy k true c v then (k.pageEntry p v).map pteFrame
        else (k.pageEntry c u).map pteFrame) hcall fun tf => by
    have hsame : (CanCopy k true c v → k.pageEntry p v = none) → ∀ u < (VPN UTOP).toNat,
        (k.pageEntry c u).map pteFrame =
          if u = v ∧ CanCopy k true c v then (k.pageEntry p v).map pteFrame
          else (k.pageEntry c u).map pteFrame := by
      intro hno u _
      split_ifs with hu
      · rw [hu.1, hnone, hno hu.2]
      · rfl
    rw [Syscall.run, sysMemMap]
    by_cases hill : isIllegalVa (BitVec.ofNat 32 v <<< 12) = true
    · rw [if_pos (.inl hill)]
      exact ⟨_, rfl, rfl, hsame fun hcan => absurd (hill.symm.trans hcan.2.1) (by simp)⟩
    · have hself : (k.entering tf).Resolves 0#32 true p := .self rfl hc.cur
      have hchild : (k.entering tf).Resolves child true c := (hc.resolves hinv).setKtf _
      rw [if_neg fun hc => hill (hc.elim id id), hself.wp, hchild.wp, wp_bind, wp_get,
        wp_bind, wp_liftPm]
      refine wp_pageLookup_entry (fun hno => ⟨_, rfl, rfl, hsame fun _ => hno⟩) ?_
        fun _ _ _ => trivial
      intro w t j hw hlt'
      have hw' : k.pageEntry p v = some w := hw
      have hpool := h.pages.counted.tgt_pool _ _
        (target_pageEntry (hinv.cur_live p hc.cur) hv hw')
      rw [wp_bind, wp_liftPm]
      refine ((h.pages.wp_pageInsert_cases _ _ hd (lt_ULIM_of_lt_UTOP hlt) ho hpool).and
        wp_pageInsert_fails).mono ?_ ?_ fun _ _ => trivial
      · rintro - m ⟨hcase, hok⟩
        have hcan : CanCopy k true c v := by
          refine ⟨rfl, Bool.eq_false_iff.mpr hill, ?_⟩
          by_contra hno
          rw [not_or, not_not] at hno
          exact hok ⟨lt_ULIM_of_lt_UTOP hlt, hno.2, .inl hno.1⟩
        refine ⟨rfl, fun u hu => ?_⟩
        have hou : T.own (PDX (BitVec.ofNat 32 u <<< 12)) = true := own_of_lt_UTOP (page_lt hu).2
        have hafter := hcase.entryAt h.pages.wellFormed h.pages.freeUnused hd ho hd hou
        change (m.entryAt (k.envs c).envPgdir _).map pteFrame = _
        rw [hafter]
        by_cases huv : u = v
        · rw [if_pos ⟨rfl, (VPN_page hu hv).mpr huv⟩, if_pos ⟨huv, hcan⟩, hw', Option.map_some,
            Option.map_some, (insertedWord_spec _ (T.lt_max hpool) (or_PTE_U_lt hperm)).1]
        · rw [if_neg fun hc => huv ((VPN_page hu hv).mp hc.2), if_neg fun hc => huv hc.1]
          rfl
      · rintro y m ⟨⟨rfl, rfl, hnil⟩, -, hfails⟩
        refine ⟨_, rfl, rfl, hsame fun hcan => ?_⟩
        rcases hcan.2.2 with hpde | hne
        · refine absurd (hfails.2.2.resolve_left (not_not.mpr hpde)).tableAt ?_
          exact h.pages.wellFormed.not_tableAt_self hd ho
        · exact absurd hnil hne
  exact ⟨henvs, hent⟩

/-- `sys_mem_map(0, va, 0, va, perm)` leaves the child alone. -/
lemma calls_remap (h : KInv T k) (hc : IsChild k p c child) (hv : v < (VPN UTOP).toNat)
    (hcall : k.Calls (.memMap 0#32 (BitVec.ofNat 32 v <<< 12) 0#32 (BitVec.ofNat 32 v <<< 12) perm)
      r k') :
    k'.envs = k.envs ∧ ∀ u < (VPN UTOP).toNat, k'.pageEntry c u = k.pageEntry c u := by
  have hd : k.dirs c = some (k.envs c).envPgdir := dirs_of_ne_free hc.live
  obtain ⟨k₁, rfl, henvs, hent⟩ := calls_of_wp (Q := fun _ k₁ => k₁.envs = k.envs ∧
      ∀ u < (VPN UTOP).toNat, k₁.pageEntry c u = k.pageEntry c u) hcall fun tf => by
    have h₁ : KInv T (k.entering tf) := h.of_eq rfl rfl rfl rfl rfl rfl
    refine (h₁.wp_sysMemMap_cases _ _ _ _ _).mono ?_ ?_ fun _ _ => trivial
    · rintro _ k₁ ⟨-, -, e, e', pp, m, -, -, -, he', hd', hcase, rfl⟩
      refine ⟨rfl, fun u hu => ?_⟩
      have hep : e' = p := Option.some.inj ((he'.symm.trans (if_pos rfl)).trans hc.cur)
      have hafter := hcase.entryAt h.pages.wellFormed h.pages.freeUnused hd'
        (own_of_lt_UTOP (page_lt hv).2) hd (own_of_lt_UTOP (page_lt hu).2)
      rw [if_neg fun heq => hc.ne (heq.1.trans hep)] at hafter
      exact hafter
    · rintro y k₁ ⟨⟨err, rfl⟩, rfl⟩
      exact ⟨err, rfl, rfl, fun _ _ => rfl⟩
  exact ⟨henvs, hent⟩

/-! ## `sys_exofork` -/

/-- **`sys_exofork`** fails, or makes a child without pages. -/
lemma calls_exofork (h : KInv T k) (hinv : EnvInv k) (hcur : k.curenv = some p)
    (hcall : k.Calls .exofork r k') :
    (ForkFails k ∧ r.toInt < 0 ∧
      ∀ e, (k'.envs e).envStatus = .free ↔ (k.envs e).envStatus = .free) ∨
    ∃ c rest, ¬ ForkFails k ∧ k.envFreeList = c :: rest ∧ k.nextId c = r ∧
      (∀ e ≠ c, k'.envs e = k.envs e) ∧ (k.envs c).envStatus = .free ∧
      (k'.envs c).envStatus ≠ .free ∧ (k'.envs c).envId = r ∧
      (k'.envs c).envParentId = (k.envs p).envId ∧
      ∀ v < (VPN UTOP).toNat, k'.pageEntry c v = none := by
  have hneg : ∀ err : Err, (-err.toWord).toInt < 0 := fun err => by cases err <;> decide
  obtain ⟨k₁, rfl, hQ⟩ := calls_of_wp (Q := fun r k₁ => (ForkFails k ∧ r.toInt < 0 ∧
      ∀ e, (k₁.envs e).envStatus = .free ↔ (k.envs e).envStatus = .free) ∨
    ∃ c rest, ¬ ForkFails k ∧ k.envFreeList = c :: rest ∧ k.nextId c = r ∧
      (∀ e ≠ c, k₁.envs e = k.envs e) ∧ (k.envs c).envStatus = .free ∧
      (k₁.envs c).envStatus ≠ .free ∧ (k₁.envs c).envId = r ∧
      (k₁.envs c).envParentId = (k.envs p).envId ∧
      ∀ v < (VPN UTOP).toNat, k₁.pageEntry c v = none) hcall fun tf => by
    rw [Syscall.run, sysExofork, wp_bind, wp_getCurenv]
    refine ⟨fun p' hp' => ?_, fun _ => trivial⟩
    obtain rfl := Option.some.inj (hcur.symm.trans hp')
    rw [wp_bind, wp_get, wp_bind, wp_envAlloc]
    cases hl : k.envFreeList with
    | nil =>
        rw [show (k.entering tf).envFreeList = [] from hl]
        exact ⟨_, rfl, .inl ⟨.inl hl, hneg _, fun _ => Iff.rfl⟩⟩
    | cons c rest =>
        rw [show (k.entering tf).envFreeList = c :: rest from hl]
        cases hf : k.pm.pageFreeList with
        | nil =>
            simp only [show (k.entering tf).pm.pageFreeList = [] from hf]
            exact ⟨_, rfl, .inl ⟨.inr (.inl hf), hneg _, fun _ => Iff.rfl⟩⟩
        | cons pp prest =>
            simp only [show (k.entering tf).pm.pageFreeList = pp :: prest from hf]
            cases hi : (List.range NASID).find? fun i => !asidUsed k.asidBitmap i with
            | none =>
                simp only [show ((List.range NASID).find? fun i =>
                  !asidUsed (k.entering tf).asidBitmap i) = none from hi]
                refine ⟨_, rfl, .inl ⟨.inr (.inr (not_not.mpr hi)), hneg _, fun e => ?_⟩⟩
                by_cases hec : e = c <;> simp [Kernel.prepared, Kernel.entering, hec]
            | some i =>
                simp only [show ((List.range NASID).find? fun i =>
                  !asidUsed (k.entering tf).asidBitmap i) = some i from hi]
                simp only [wp_bind, wp_get, wp_modifyEnv, wp_pure]
                have hfree : (k.envs c).envStatus = .free := hinv.free_free c (by simp [hl])
                refine .inr ⟨c, rest, ?_, rfl, ?_, fun e he => ?_, hfree, ?_, ?_,
                  ?_, fun v hv => ?_⟩
                · rintro (hc | hc | hc)
                  · exact absurd (hl.symm.trans hc) (by simp)
                  · exact absurd (hf.symm.trans hc) (by simp)
                  · exact hc (by simp [Kernel.HasAsid, hi])
                · simp [Kernel.allocated, Kernel.nextId, Kernel.entering]
                · simp [Kernel.allocated, Kernel.entering, he]
                · simp
                · simp [Kernel.allocated]
                · simp [Kernel.allocated, Kernel.entering]
                · have hempty := (h.entryAt_setupVm hf).1 _ (page_lt hv).2
                  have hsetup : (k.entering tf).setupVm pp prest = k.setupVm pp prest := rfl
                  rw [Kernel.pageEntry]
                  simpa [Kernel.allocated, hsetup] using hempty
  exact hQ

end

/-! ## The invariant -/

section

variable {mc : Machine} {p c n n' i j : ℕ} {child cow r : Word} {x x' : State} {k' : Kernel}

/-- The frame that the child has at the page `v`: that of the parent, if it could be copied. -/
def State.sent (x : State) (p c v : ℕ) : Option ℕ :=
  (x.passed v).bind fun y =>
    if CanCopy y.1 y.2 c v then (y.1.pageEntry p v).map pteFrame else none

/-- `sys_exofork` has failed. -/
structure Failed (x : State) (p : ℕ) (child : Word) : Prop where
  forkedAt : ∃ k₁, x.forkedAt = some k₁ ∧ ForkFails k₁
  neg : child.toInt < 0
  new : ∀ e, ¬ x.NewChild p e

/-- `sys_exofork` has made the child `c`, and `fork` is done with the pages below `n`. -/
structure Made (x : State) (p : ℕ) (child : Word) (n c : ℕ) : Prop where
  forkedAt : ∃ k₁ rest, x.forkedAt = some k₁ ∧ ¬ ForkFails k₁ ∧ k₁.envFreeList = c :: rest ∧
    k₁.nextId c = child
  ne_zero : child ≠ 0#32
  slot : c < NENV
  ne : c ≠ p
  new : ∀ e, x.NewChild p e ↔ e = c
  envId : (x.k.envs c).envId = child
  passed : ∀ v < (VPN UTOP).toNat, (x.passed v).isSome = true ↔ v < n
  /-- The child has the pages that could be copied, and no others. -/
  entry : ∀ v < (VPN UTOP).toNat, (x.k.pageEntry c v).map pteFrame = x.sent p c v

/-- Between `sys_exofork` and the return. -/
def During (x : State) (p : ℕ) (child : Word) (n : ℕ) : Prop :=
  Failed x p child ∨ ∃ c, Made x p child n c

/-- What holds at each place of `fork`. -/
def InvAt (p : ℕ) (x : State) : Pc → Prop
  | .entry | .exofork => x.forkedAt = none ∧ ∀ v, x.passed v = none
  | .pde child i => During x p child (i * 1024)
  | .pte child i j => i < pdes ∧ j ≤ 1024 ∧ During x p child (i * 1024 + j)
  | .dup child i j => i < pdes ∧ j < 1024 ∧ During x p child (i * 1024 + j)
  | .map child i j perm _ => perm < 0x400#32 ∧ i < pdes ∧ j < 1024 ∧ During x p child (i * 1024 + j)
  | .remap child i j perm =>
      perm < 0x400#32 ∧ i < pdes ∧ j < 1024 ∧ During x p child (i * 1024 + (j + 1))
  | .setEntry child | .setStatus child => During x p child (VPN UTOP).toNat
  | .returned r => x.AllOrNothing p r ↔ x.Suffices p

/-- **The invariant of `fork`.** -/
def Inv (p : ℕ) (x : State) : Prop := InvAt p x x.pc

lemma vpn_lt (hi : i < pdes) (hj : j < 1024) : i * 1024 + j < (VPN UTOP).toNat := by
  have hU : (VPN UTOP).toNat = 0x7f400 := by decide
  have hP : pdes = 509 := by decide
  omega

lemma newChild_congr (hf : x'.forkedAt = x.forkedAt) (hfam : Family x.k x'.k) (e : ℕ) :
    x'.NewChild p e ↔ x.NewChild p e := by
  simp only [State.NewChild, hf, hfam.envParentId, hfam.envId, ne_eq, hfam.free]

lemma Made.isChild (h : Made x p child n c) (hcur : x.k.curenv = some p) :
    IsChild x.k p c child := by
  obtain ⟨k₁, -, -, hlive, hparent⟩ := (h.new c).mpr rfl
  exact ⟨hcur, h.ne, h.slot, h.ne_zero, hlive, h.envId, hparent⟩

/-- The pages from `n` on have not been sent. -/
lemma Made.sent_none (h : Made x p child n c) {v : ℕ} (hv : v < (VPN UTOP).toNat) (hn : n ≤ v) :
    x.passed v = none := by
  by_contra hsome
  exact absurd ((h.passed v hv).mp (Option.isSome_iff_ne_none.mpr hsome)) (not_lt.mpr hn)

/-- The envs and the child's pages are the same. -/
lemma Made.congr (h : Made x p child n c) (hf : x'.forkedAt = x.forkedAt) (hfam : Family x.k x'.k)
    (hpassed : ∀ v < (VPN UTOP).toNat, (x'.passed v).isSome = true ↔ v < n')
    (hentry : ∀ v < (VPN UTOP).toNat, (x'.k.pageEntry c v).map pteFrame = x'.sent p c v) :
    Made x' p child n' c :=
  ⟨hf ▸ h.forkedAt, h.ne_zero, h.slot, h.ne, fun e => (newChild_congr hf hfam e).trans (h.new e),
    (hfam.envId c).trans h.envId, hpassed, hentry⟩

lemma Failed.congr (h : Failed x p child) (hf : x'.forkedAt = x.forkedAt) (hfam : Family x.k x'.k) :
    Failed x' p child :=
  ⟨hf ▸ h.forkedAt, h.neg, fun e he => h.new e ((newChild_congr hf hfam e).mp he)⟩

/-- A step that maps nothing in the child, and passes no page. -/
lemma During.congr (h : During x p child n) (hf : x'.forkedAt = x.forkedAt)
    (hfam : Family x.k x'.k) (hpassed : x'.passed = x.passed)
    (hentry : ∀ c, Made x p child n c → ∀ v < (VPN UTOP).toNat,
      x'.k.pageEntry c v = x.k.pageEntry c v)
    (hn : ∀ v < (VPN UTOP).toNat, v < n ↔ v < n') : During x' p child n' := by
  rcases h with h | ⟨c, h⟩
  · exact .inl (h.congr hf hfam)
  · refine .inr ⟨c, h.congr hf hfam (fun v hv => ?_) fun v hv => ?_⟩
    · rw [hpassed, h.passed v hv, hn v hv]
    · rw [hentry c h v hv, h.entry v hv, State.sent, State.sent, hpassed]

lemma Family.refl {k : Kernel} : Family k k := .of_envs rfl

lemma During.goto (h : During x p child n) (pc : Pc)
    (hn : ∀ v < (VPN UTOP).toNat, v < n ↔ v < n') : During (x.goto pc) p child n' :=
  h.congr rfl .refl rfl (fun _ _ _ _ => rfl) hn

/-- Pages are passed over. -/
lemma During.skip (h : During x p child n) (hk : x'.k = x.k) (hf : x'.forkedAt = x.forkedAt)
    (hold : ∀ v < n, x'.passed v = x.passed v)
    (hskip : ∀ v, n ≤ v → v < n' → ∃ k₂, x'.passed v = some (k₂, false))
    (hrest : ∀ v, n' ≤ v → x'.passed v = x.passed v) (hle : n ≤ n') : During x' p child n' := by
  have hfam : Family x.k x'.k := .of_envs (by rw [hk])
  rcases h with h | ⟨c, h⟩
  · exact .inl (h.congr hf hfam)
  · refine .inr ⟨c, h.congr hf hfam (fun v hv => ?_) fun v hv => ?_⟩
    · rcases lt_or_ge v n with hlt | hge
      · rw [hold v hlt, h.passed v hv]
        omega
      · rcases lt_or_ge v n' with hlt' | hge'
        · obtain ⟨k₂, hk₂⟩ := hskip v hge hlt'
          simp [hk₂, hlt']
        · rw [hrest v hge', h.passed v hv]
          omega
    · rw [hk, h.entry v hv, State.sent, State.sent]
      rcases lt_or_ge v n with hlt | hge
      · rw [hold v hlt]
      · rw [h.sent_none hv hge]
        rcases lt_or_ge v n' with hlt' | hge'
        · obtain ⟨k₂, hk₂⟩ := hskip v hge hlt'
          simp [hk₂, CanCopy]
        · rw [hrest v hge', h.sent_none hv hge]

/-- What happens in between. -/
lemma During.other (h : During x p child n) (halone : x.LeavesAlone p k') :
    During { x with k := k' } p child n := by
  rcases h with h | ⟨c, h⟩
  · exact .inl ⟨h.forkedAt, h.neg, fun e he => h.new e (halone.new e he)⟩
  · have hnew := (h.new c).mpr rfl
    refine .inr ⟨c, h.forkedAt, h.ne_zero, h.slot, h.ne, fun e => ⟨fun he => ?_, ?_⟩, ?_, h.passed,
      fun v hv => ?_⟩
    · exact (h.new e).mp (halone.new e he)
    · rintro rfl
      obtain ⟨k₁, hk₁, hfree, -, hparent⟩ := id hnew
      refine ⟨k₁, hk₁, hfree, halone.live e hnew, ?_⟩
      exact ((halone.envParentId e hnew).trans hparent).trans halone.parent.symm
    · exact (halone.envId c hnew).trans h.envId
    · exact (congrArg (Option.map pteFrame) (halone.space c hnew v hv)).trans (h.entry v hv)

/-- **At the end.** -/
lemma Made.allOrNothing_iff (h : Made x p child (VPN UTOP).toNat c)
    (hrun : (x.k.envs c).envStatus = .runnable) : x.AllOrNothing p child ↔ x.Suffices p := by
  obtain ⟨k₁, rest, hk₁, hok, hfree, hid⟩ := h.forkedAt
  have hlt : ∀ v < (VPN USTACKTOP).toNat, v < (VPN UTOP).toNat := by
    have hS : (VPN USTACKTOP).toNat = 0x7f3fe := by decide
    have hU : (VPN UTOP).toNat = 0x7f400 := by decide
    omega
  have hnew := (h.new c).mpr rfl
  have hsuff : x.Suffices p ↔ 0 < child.toInt ∧ ∀ v < (VPN USTACKTOP).toNat, ∀ k₂ shown,
      x.passed v = some (k₂, shown) → k₂.pageEntry p v ≠ none → CanCopy k₂ shown c v := by
    constructor
    · rintro ⟨k, hk, hfails | ⟨c', rest', hfree', hpos, hall⟩⟩
      · obtain rfl := Option.some.inj (hk.symm.trans hk₁)
        exact absurd hfails hok
      · obtain rfl := Option.some.inj (hk.symm.trans hk₁)
        obtain ⟨rfl, -⟩ := List.cons.inj (hfree'.symm.trans hfree)
        exact ⟨hid ▸ hpos, hall⟩
    · exact fun hall => ⟨k₁, hk₁, .inr ⟨c, rest, hfree, hid.symm ▸ hall⟩⟩
  rw [hsuff, State.AllOrNothing]
  split_ifs with hpos
  · rw [and_iff_right hpos]
    constructor
    · rintro ⟨c', hc', -, hall⟩ v hv k₂ shown hpassed hsome
      obtain rfl := (h.new c').mp hc'
      obtain ⟨k₂', shown', hpassed', hcopied⟩ := hall v hv
      obtain ⟨rfl, rfl⟩ := Prod.mk.inj (Option.some.inj (hpassed.symm.trans hpassed'))
      obtain ⟨w, hw⟩ := Option.ne_none_iff_exists'.mp hsome
      by_contra hno
      have hsent := (h.entry v (hlt v hv)).symm.trans (hcopied w hw)
      rw [State.sent, hpassed, Option.bind_some, if_neg hno] at hsent
      cases hsent
    · refine fun hall => ⟨c, hnew, h.envId, fun v hv => ?_⟩
      obtain ⟨⟨k₂, shown⟩, hpassed⟩ :=
        Option.isSome_iff_exists.mp ((h.passed v (hlt v hv)).mpr (hlt v hv))
      refine ⟨k₂, shown, hpassed, fun w hw => ?_⟩
      have hcan := hall v hv k₂ shown hpassed (by rw [hw]; nofun)
      rw [h.entry v (hlt v hv), State.sent, hpassed, Option.bind_some, if_pos hcan, hw]
      rfl
  · exact iff_of_false (fun hno => hno.2 c hnew hrun) fun hno => hpos hno.1

lemma Failed.allOrNothing_iff (h : Failed x p child) : x.AllOrNothing p child ↔ x.Suffices p := by
  obtain ⟨k₁, hk₁, hfails⟩ := h.forkedAt
  have hneg := h.neg
  refine iff_of_true ?_ ⟨k₁, hk₁, .inl hfails⟩
  rw [State.AllOrNothing, if_neg (by omega)]
  exact ⟨hneg, fun c hc => absurd hc (h.new c)⟩

lemma Family.pageEntry {k : Kernel} (h : Family k k') (hpm : k'.pm = k.pm) (e v : ℕ) :
    k'.pageEntry e v = k.pageEntry e v := by
  rw [Kernel.pageEntry, Kernel.pageEntry, hpm, h.envPgdir]

lemma calls_setTlbModEntry_self {k : Kernel} (hcur : k.curenv = some p)
    (h : k.Calls (.setTlbModEntry 0#32 cow) r k') : r = 0#32 := by
  obtain ⟨-, -, hr⟩ := calls_of_wp (Q := fun r _ => r = 0#32) h fun tf => by
    have hself : (k.entering tf).Resolves 0#32 true p := .self rfl hcur
    rw [Syscall.run, sysSetTlbModEntry, hself.wp, wp_bind, wp_modifyEnv, wp_pure]
  exact hr

/-- A mapping call leaves the envs alone. -/
lemma calls_memMap {k : Kernel} {srcid srcva dstid dstva perm : Word}
    (h : k.Calls (.memMap srcid srcva dstid dstva perm) r k') : k'.envs = k.envs := by
  obtain ⟨k₁, rfl, henvs⟩ := calls_of_wp (Q := fun _ k₁ => k₁.envs = k.envs) h fun tf => by
    refine (quiet_sysMemMap _ _ _ _ _).wp_mono_code (fun _ k₁ hl => ?_) fun err k₁ hl => ?_
    · obtain ⟨m, dev, rfl⟩ := hl
      rfl
    · obtain ⟨m, dev, rfl⟩ := hl
      exact ⟨err, rfl, rfl⟩
  exact henvs

/-- The step from `sys_exofork` into the loop. -/
lemma Inv.exofork {T : Template} (hk : KInv T x.k) (hinv : EnvInv x.k)
    (hhead : ∀ e rest, x.k.envFreeList = e :: rest → e < NENV) (h : ∀ v, x.passed v = none)
    (hcur : x.k.curenv = some p) (hcall : x.k.Calls .exofork r k') :
    Inv p { x with
      k := k', pc := if r = 0#32 then .returned 0#32 else .pde r 0, forkedAt := some x.k } := by
  rcases calls_exofork hk hinv hcur hcall with ⟨hfails, hneg, hfree⟩ |
    ⟨c, rest, hok, hl, hid, hother, hfree, hlive, hid', hparent, hempty⟩
  · rw [Inv, if_neg (by rintro rfl; exact absurd hneg (by decide))]
    refine .inl ⟨⟨x.k, rfl, hfails⟩, hneg, ?_⟩
    rintro e ⟨k₁, ⟨⟩, hfree₁, hlive, -⟩
    exact hlive ((hfree e).mpr hfree₁)
  · rw [Inv]
    by_cases hr : r = 0#32
    · rw [if_pos hr]
      refine iff_of_false (fun hall => ?_) ?_
      · rw [State.AllOrNothing, if_neg (by decide)] at hall
        exact absurd hall.1 (by decide)
      · rintro ⟨k₁, ⟨⟩, hfails | ⟨c', rest', hl', hpos, -⟩⟩
        · exact hok hfails
        · obtain ⟨rfl, -⟩ := List.cons.inj (hl'.symm.trans hl)
          rw [hid, hr] at hpos
          exact absurd hpos (by decide)
    · rw [if_neg hr]
      have hne : c ≠ p := fun hc => hinv.cur_live p hcur (hc ▸ hfree)
      have hp : (k'.envs p).envId = (x.k.envs p).envId := by rw [hother p hne.symm]
      refine .inr ⟨c, ⟨x.k, rest, rfl, hok, hl, hid⟩, hr, hhead c rest hl, hne,
        fun e => ⟨?_, ?_⟩, hid',
        fun v _ => ?_, fun v hv => ?_⟩
      · rintro ⟨k₁, ⟨⟩, hfree₁, hlive₁, -⟩
        by_contra hec
        rw [hother e hec] at hlive₁
        exact hlive₁ hfree₁
      · rintro rfl
        exact ⟨x.k, rfl, hfree, hlive, hparent.trans hp.symm⟩
      · simp [h v]
      · rw [State.sent, h v, hempty v hv]
        rfl

/-- The step that maps a page in the child. -/
lemma During.map {T : Template} {v : ℕ} {perm : Word} (h : During x p child v) (hk : KInv T x.k)
    (hinv : EnvInv x.k) (hcur : x.k.curenv = some p) (hv : v < (VPN UTOP).toNat)
    (hperm : perm < 0x400#32) (hcall : x.k.Calls (.memMap 0#32 (BitVec.ofNat 32 v <<< 12) child
      (BitVec.ofNat 32 v <<< 12) perm) r k') (hx : x'.k = k') (hf : x'.forkedAt = x.forkedAt)
    (hpassed : x'.passed = Function.update x.passed v (some (x.k, true))) (hn : n = v + 1) :
    During x' p child n := by
  subst hn
  have hfam : Family x.k x'.k := .of_envs (by rw [hx, calls_memMap hcall])
  rcases h with h | ⟨c, h⟩
  · exact .inl (h.congr hf hfam)
  · have hnot := h.sent_none hv le_rfl
    have hnone : x.k.pageEntry c v = none := by
      have hentry := h.entry v hv
      rw [State.sent, hnot] at hentry
      exact Option.map_eq_none_iff.mp hentry
    have hmap := (calls_map hk hinv (h.isChild hcur) hv hnone hperm hcall).2
    refine .inr ⟨c, h.congr hf hfam (fun u hu => ?_) fun u hu => ?_⟩
    · rw [hpassed]
      by_cases huv : u = v
      · simp [huv]
      · rw [Function.update_of_ne huv, h.passed u hu]
        omega
    · rw [hx, hmap u hu, State.sent, hpassed]
      by_cases huv : u = v
      · subst huv
        rw [Function.update_self, Option.bind_some, hnone]
        by_cases hcan : CanCopy x.k true c u
        · rw [if_pos ⟨rfl, hcan⟩, if_pos hcan]
        · rw [if_neg fun hc => hcan hc.2, if_neg hcan]
          rfl
      · rw [Function.update_of_ne huv, if_neg fun hc => huv hc.1]
        exact h.entry u hu

lemma InvAt.other {pc : Pc} (h : InvAt p x pc) (hpc : ∀ r, pc ≠ .returned r)
    (halone : x.LeavesAlone p k') : InvAt p { x with k := k' } pc := by
  cases pc with
  | entry => exact h
  | exofork => exact h
  | pde child i => exact During.other h halone
  | pte child i j => exact ⟨h.1, h.2.1, h.2.2.other halone⟩
  | dup child i j => exact ⟨h.1, h.2.1, h.2.2.other halone⟩
  | map child i j perm again => exact ⟨h.1, h.2.1, h.2.2.1, h.2.2.2.other halone⟩
  | remap child i j perm => exact ⟨h.1, h.2.1, h.2.2.1, h.2.2.2.other halone⟩
  | setEntry child => exact During.other h halone
  | setStatus child => exact During.other h halone
  | returned r => exact absurd rfl (hpc r)

lemma Inv.step {T : Template} (h : Inv p x) (hk : KInv T x.k) (hinv : EnvInv x.k)
    (hhead : ∀ e rest, x.k.envFreeList = e :: rest → e < NENV) (hs : Step p cow x x') :
    Inv p x' := by
  cases hs with
  | other hpc hstep hadm halone => exact InvAt.other h hpc halone
  | entrySet hpc hcur hset =>
      rw [Inv, hpc] at h
      exact h
  | @entryCall r k' hpc hcur hset hcall =>
      rw [Inv, hpc] at h
      obtain rfl := calls_setTlbModEntry_self hcur hcall
      exact h
  | exofork hpc hcur hcall =>
      rw [Inv, hpc] at h
      exact Inv.exofork hk hinv hhead h.2 hcur hcall
  | @pde child i hpc hcur hi hv =>
      rw [Inv, hpc] at h
      exact ⟨hi, by omega, During.goto h _ fun v _ => by omega⟩
  | @pdeSkip child i hpc hcur hi hv =>
      rw [Inv, hpc] at h
      refine During.skip (n := i * 1024) h rfl rfl (fun v hv => ?_) (fun v hlo hhi => ?_)
        (fun v hv => ?_) (by omega)
      · exact if_neg (by omega)
      · exact ⟨x.k, if_pos (by omega)⟩
      · exact if_neg (by omega)
  | @pdeEnd child i hpc hcur hi =>
      rw [Inv, hpc] at h
      have hU : (VPN UTOP).toNat = 0x7f400 := by decide
      have hP : pdes = 509 := by decide
      exact During.goto h _ fun v hv => by omega
  | @pte child i j hpc hcur hj hlt hv =>
      rw [Inv, hpc] at h
      exact ⟨h.1, hj, h.2.2.goto _ fun v _ => Iff.rfl⟩
  | @pteSkip child i j hpc hcur hj hno =>
      rw [Inv, hpc] at h
      refine ⟨h.1, hj, ?_⟩
      refine During.skip (n := i * 1024 + j) h.2.2 rfl rfl (fun v hv => ?_) (fun v hlo hhi => ?_)
        (fun v hv => ?_) (by omega)
      · exact Function.update_of_ne (by omega) _ _
      · obtain rfl : v = i * 1024 + j := by omega
        exact ⟨x.k, Function.update_self _ _ _⟩
      · exact Function.update_of_ne (by omega) _ _
  | @pteEnd child i j hpc hcur hj =>
      rw [Inv, hpc] at h
      have hle := h.2.1
      exact h.2.2.goto _ fun v _ => by omega
  | @dup child i j hpc hcur =>
      rw [Inv, hpc] at h
      exact ⟨duppage_lt _, h.1, h.2.1, h.2.2.goto _ fun v _ => Iff.rfl⟩
  | @map child i j perm again r k' hpc hcur hcall =>
      rw [Inv, hpc] at h
      obtain ⟨hperm, hi, hj, h⟩ := h
      have h' : During { x with
          k := k', pc := if again then .remap child i j perm else .pte child i (j + 1)
          passed := Function.update x.passed (i * 1024 + j) (some (x.k, true)) } p child
            (i * 1024 + (j + 1)) :=
        h.map hk hinv hcur (vpn_lt hi hj) hperm hcall rfl rfl rfl (by omega)
      cases again with
      | true => exact ⟨hperm, hi, hj, h'⟩
      | false => exact ⟨hi, hj, h'⟩
  | @remap child i j perm r k' hpc hcur hcall =>
      rw [Inv, hpc] at h
      obtain ⟨-, hi, hj, h⟩ := h
      refine ⟨hi, hj, h.congr rfl (.of_envs (calls_memMap hcall)) rfl (fun c hm => ?_)
        fun _ _ => Iff.rfl⟩
      exact (calls_remap hk (hm.isChild hcur) (vpn_lt hi hj) hcall).2
  | @setEntry child r k' hpc hcur hcall =>
      rw [Inv, hpc] at h
      obtain ⟨hfam, hpm⟩ := calls_setTlbModEntry hcall
      exact During.congr h rfl hfam rfl (fun c _ v _ => hfam.pageEntry hpm c v) fun _ _ => Iff.rfl
  | @setStatus child r k' hpc hcur hcall =>
      rw [Inv, hpc] at h
      rcases h with h | ⟨c, h⟩
      · obtain ⟨hfam, -, -⟩ := calls_setEnvStatus (c := p) hinv hcall
        have h' : Failed { x with k := k', pc := .returned child } p child := h.congr rfl hfam
        exact h'.allOrNothing_iff
      · obtain ⟨hfam, hpm, hrun⟩ := calls_setEnvStatus (c := c) hinv hcall
        have h' : Made { x with k := k', pc := .returned child } p child (VPN UTOP).toNat c :=
          h.congr rfl hfam h.passed fun v hv => by
            rw [hfam.pageEntry hpm]
            exact h.entry v hv
        exact h'.allOrNothing_iff (hrun ((h.isChild hcur).resolves hinv))

/-- The states of a call of `fork` are reached by the machine. -/
lemma Reaches.machine (h : Reaches mc p cow x) :
    MosRv.Reaches mc (fun k ev => ev.Admissible k) x.k := by
  refine Reachable.invariant (I := fun x : State =>
    MosRv.Reaches mc (fun k ev => ev.Admissible k) x.k) h (fun _ hs => hs.reached) ?_
  rintro x - x' hr hs
  cases hs with
  | other _ hstep hadm => exact hr.step ⟨hadm, hstep⟩
  | entryCall _ _ _ hcall => exact hcall.reaches hr
  | exofork _ _ hcall => exact hcall.reaches hr
  | map _ _ hcall => exact hcall.reaches hr
  | remap _ _ hcall => exact hcall.reaches hr
  | setEntry _ _ hcall => exact hcall.reaches hr
  | setStatus _ _ hcall => exact hcall.reaches hr
  | _ => exact hr

lemma Reaches.inv (h : Reaches mc p cow x) : Inv p x := by
  refine Reachable.invariant_of (I := Inv p)
    (J := fun x : State => MosRv.Reaches mc (fun k ev => ev.Admissible k) x.k) h
    (fun _ hr => Reaches.machine hr) ?_ ?_
  · intro x hs _
    rw [Inv, hs.pc]
    exact ⟨hs.forkedAt, hs.passed⟩
  · intro x _ x' hr _ hinv hs
    obtain ⟨T, -, -, -, hk⟩ := hr.kInv fun _ _ hc => hc
    exact hinv.step hk hr.envInv (fun e rest hl => hr.head_lt hl) hs

/-- **Fork is all or nothing exactly where every mapping call it needs succeeds**, whenever memory
runs out, and whatever happens in between. -/
theorem fork_all_or_nothing_iff (h : Reaches mc p cow x) (hpc : x.pc = .returned r) :
    x.AllOrNothing p r ↔ x.Suffices p := by
  have hinv := h.inv
  rw [Inv, hpc] at hinv
  exact hinv

end

/-! ## Fork without memory

On a machine with little memory, the first env forks until one page is left.  That page becomes the
page directory of the child of the next fork, and there is none for a page table. -/

/-- A machine with 1607 pages. -/
def tinyMachine : Machine where
  npage := 1607
  envsFrame := 0x500
  mem := fun _ _ => 0#32
  npage_le := by decide
  room := by decide
  envs_below := envsSpan_below
  audit := false

/-- Env 0 runs, and has one page, read-only, at `0x400000`; the other envs, up to `n`, have none. -/
structure Crowd (T : Template) (n : ℕ) (k : Kernel) : Prop where
  kInv : KInv T k
  npage_eq : T.npage = 1607
  nUsed_eq : T.nUsed = 1542
  gap : T.gap = false
  strict : T.strict = false
  cur : k.curenv = some 0
  live : (k.envs 0).envStatus ≠ .free
  free : k.envFreeList = List.range' n (NENV + 1 - n)
  asid : ∀ i, asidUsed k.asidBitmap i = decide (i < n)
  mkenvid : k.mkenvidI = BitVec.ofNat 32 n
  sched : TailQueue.Rep k.envSchedList [0]
  empty : ∀ v < (VPN UTOP).toNat, v ≠ 0x400 → k.pageEntry 0 v = none
  page : ∃ w, k.pageEntry 0 0x400 = some w ∧ k.pm.ppRef (pteFrame w) = 1#16

section

variable {T : Template} {n : ℕ} {k : Kernel}

lemma serves_call {call : Syscall} (hs : T.strict = false) :
    (Event.trap call.frame).Serves T k :=
  ⟨fun hc => absurd (show CAUSE_USER_ECALL = CAUSE_FAULT_STORE from hc) (by decide),
    fun _ hstrict => absurd (hs.symm.trans hstrict) nofun⟩

/-- A page that was not in use has been counted once. -/
lemma ppRef_insertCase {m m' : Pmap} {d pp : ℕ} {va perm : Word}
    (hcase : InsertCase m d pp va perm m')
    (href : m.ppRef pp = 0#16) (hnot : pp ∉ m.pageFreeList)
    (hfresh : ∀ t, m.TableAt d va t → HasFlag (m.mem t (PTX va)) PTE_V →
      pteFrame (m.mem t (PTX va)) ≠ pp) : m'.ppRef pp = 1#16 := by
  have hone : (0#16 : BitVec 16) + 1#16 = 1#16 := by decide
  cases hcase with
  | reflag ht hv hpp => exact absurd hpp (hfresh _ ht hv)
  | replace ht hv hq hlt hne hr =>
      rw [Pmap.write_ppRef, Pmap.addRef_ppRef, Function.update_self, Pmap.release_ppRef,
        Function.update_of_ne hne.symm, href, hone]
  | fill ht hv => rw [Pmap.write_ppRef, Pmap.addRef_ppRef, Function.update_self, href, hone]
  | @grow t rest hv hf =>
      have hpt : pp ≠ t := by
        rintro rfl
        exact hnot (hf ▸ List.mem_cons_self)
      have hgrow : (m.grow d (PDX va) t rest).ppRef pp = m.ppRef pp := Function.update_of_ne hpt _ _
      rw [Pmap.write_ppRef, Pmap.addRef_ppRef, Function.update_self, hgrow, href, hone]

/-- The first env maps its page. -/
lemma Populated_mapPage (h : Populated tinyMachine T 1 k) (hgap : T.gap = false)
    (hstrict : T.strict = false) (hcur : k.curenv = some 0) : ∃ k',
      MosRv.Step k (.trap (Syscall.memAlloc 0#32 ecallVa PTE_R).frame) k' ∧
      (Event.trap (Syscall.memAlloc 0#32 ecallVa PTE_R).frame).Admissible k ∧
      Crowd T 1 k' ∧ k'.pm.pageFreeList ≠ [] := by
  have hlive : (k.envs 0).envStatus ≠ .free := by
    rw [(h.born 0 (by decide)).1]
    decide
  have hd : k.dirs 0 = some (k.envs 0).envPgdir := dirs_of_ne_free hlive
  have ho : ∀ {v}, v < (VPN UTOP).toNat → T.own (PDX (BitVec.ofNat 32 v <<< 12)) = true :=
    fun hv => own_of_lt_UTOP (page_lt hv).2
  have h400 : 0x400 < (VPN UTOP).toNat := by decide
  have hva : ecallVa = BitVec.ofNat 32 0x400 <<< 12 := by decide
  have hlen : 3 ≤ k.pm.pageFreeList.length := by
    have hroom := h.room
    have hfix : tinyMachine.nUsed + pagesSpan tinyMachine.npage + envsSpan + 1 = 1601 := by decide
    change 1607 ≤ _ at hroom
    omega
  obtain ⟨pp, rest, hf⟩ : ∃ pp rest, k.pm.pageFreeList = pp :: rest :=
    List.exists_cons_of_ne_nil fun hnil => by simp [hnil] at hlen
  obtain ⟨hpool, hnot, hunref, hz⟩ := h.kInv.pages.fresh hf
  have htake := h.kInv.pages.take hf
  have hadm : (Event.trap (Syscall.memAlloc 0#32 ecallVa PTE_R).frame).Admissible k := by
    intro call hcall pp' perm hm
    obtain rfl := hcall.unique (Syscall.frame_calls _)
    rw [Syscall.mapped, hf, List.head?_cons, Option.map_some, Option.some.injEq,
      Prod.mk.injEq] at hm
    obtain ⟨rfl, rfl⟩ := hm
    refine ⟨fits_of_lt (by decide) _, ?_⟩
    have hle := (h.kInv.pageSafe (T.nUsed_le pp hpool)).count_le
    rw [hz] at hle
    exact lt_of_le_of_lt hle (by decide)
  have hwp : wp (Syscall.run (.memAlloc 0#32 ecallVa PTE_R))
      (k.entering (Syscall.memAlloc 0#32 ecallVa PTE_R).frame) (fun r k₁ => r = 0#32 ∧ ∃ m,
        InsertCase (k.pm.take pp rest) (k.envs 0).envPgdir pp ecallVa (PTE_R ||| PTE_U) m ∧
        k₁ = { k.entering (Syscall.memAlloc 0#32 ecallVa PTE_R).frame with pm := m })
      (fun _ _ => False) fun _ => False := by
    have hself : (k.entering (Syscall.memAlloc 0#32 ecallVa PTE_R).frame).Resolves 0#32 true 0 :=
      .self rfl hcur
    have hf' : (k.entering (Syscall.memAlloc 0#32 ecallVa PTE_R).frame).pm.pageFreeList =
        pp :: rest := hf
    rw [Syscall.run, sysMemAlloc, if_neg (by decide), hself.wp, wp_bind, wp_liftPm,
      wp_pageAlloc_cons hf', wp_bind, wp_get, wp_bind, wp_liftPm]
    refine (htake.wp_pageInsert_cases _ _ hd (by decide) (hva ▸ ho h400) hpool).mono ?_ ?_
      fun _ hp => hp
    · exact fun _ m hcase => ⟨rfl, m, hcase, rfl⟩
    · rintro x m ⟨-, -, hnil⟩
      rw [Pmap.take_pageFreeList] at hnil
      simp [hf, hnil] at hlen
  obtain ⟨r, k₁, hrun, rfl, m, hcase, rfl⟩ := hwp.exists_ok
  have hstep := step_call_ok (by simp [hcur]) (Syscall.frame_calls _) hrun
  have hkInv := hstep.kInv h.kInv hadm (serves_call hstrict)
  have hold : ∀ v < (VPN UTOP).toNat,
      ((k.pm.take pp rest).entryAt (k.envs 0).envPgdir (BitVec.ofNat 32 v <<< 12)).map pteFrame =
        (k.pageEntry 0 v).map pteFrame := by
    intro v hv
    have htgt := congrFun (h.kInv.pages.target_take hf)
      (.pte 0 (PDX (BitVec.ofNat 32 v <<< 12)) (PTX (BitVec.ofNat 32 v <<< 12)))
    rw [Kernel.pageEntry, entryAt_eq_slotWord (ho hv) hd, entryAt_eq_slotWord (ho hv) hd]
    exact htgt
  have hentry : ∀ v < (VPN UTOP).toNat,
      m.entryAt (k.envs 0).envPgdir (BitVec.ofNat 32 v <<< 12) = if v = 0x400 then
        some (insertedWord ((k.pm.take pp rest).entryAt (k.envs 0).envPgdir ecallVa) pp
          (PTE_R ||| PTE_U))
      else (k.pm.take pp rest).entryAt (k.envs 0).envPgdir (BitVec.ofNat 32 v <<< 12) := by
    intro v hv
    rw [hcase.entryAt htake.wellFormed htake.freeUnused hd (hva ▸ ho h400) hd (ho hv), hva]
    by_cases hv4 : v = 0x400
    · rw [if_pos ⟨rfl, by rw [hv4]⟩, if_pos hv4]
    · rw [if_neg fun hc => hv4 ((VPN_page hv h400).mp hc.2), if_neg hv4]
  have hframe := (insertedWord_spec ((k.pm.take pp rest).entryAt (k.envs 0).envPgdir ecallVa)
    (T.lt_max hpool) (show PTE_R ||| PTE_U < 0x400#32 by decide)).1
  refine ⟨_, hstep, hadm, ⟨hkInv, h.npage_eq, h.nUsed_eq, hgap, hstrict, hcur, hlive, h.free,
    h.asid, h.mkenvid, h.sched, fun v hv hne => ?_, ?_⟩, ?_⟩
  · refine (hentry v hv).trans ((if_neg hne).trans
      (Option.map_eq_none_iff.mp ((hold v hv).trans ?_)))
    rw [Kernel.pageEntry, h.empty 0 (by decide) _ (page_lt hv).2 fun hc => hne ?_]
    · rfl
    · rw [hva] at hc
      exact (VPN_page hv h400).mp hc
  · refine ⟨_, (hentry 0x400 h400).trans (if_pos rfl), ?_⟩
    rw [hframe]
    refine ppRef_insertCase hcase hz hnot fun t ht hv hc => ?_
    refine hunref (.pte 0 (PDX ecallVa) (PTX ecallVa))
      (target_pte_eq_some.mpr ⟨t, ?_, PTX_lt _, hv, hc⟩)
    exact (tableAt_iff (hva ▸ ho h400) hd).mp ht
  · intro hnil
    have hle := hcase.length_le
    change m.pageFreeList = [] at hnil
    rw [hnil, Pmap.take_pageFreeList] at hle
    rw [hf, List.length_cons] at hlen
    simp at hle
    omega

lemma exists_crowd : ∃ T k, MosRv.Reaches tinyMachine (fun k ev => ev.Admissible k) k ∧
    Crowd T 1 k ∧ k.pm.pageFreeList ≠ [] := by
  obtain ⟨T, k₀, hrun, hgap, hstrict, hb⟩ := boot_spec tinyMachine quietDevices false false nofun
  obtain ⟨k₁, hstep₁, hcur₁, hpop⟩ := hb.populated.create hb.curenv (by decide) (by decide) 0#32
  have hstep₂ := hpop.tick hcur₁
  have hpop₂ := hpop.started hcur₁
  have hreach : MosRv.Reaches tinyMachine (fun k ev => ev.Admissible k) (k₁.started 0) := by
    have h₀ : MosRv.Reaches tinyMachine (fun k ev => ev.Admissible k) k₀ := .init ⟨_, hrun⟩
    have hcreate : (Event.create ecallImage 0#32).Admissible k₀ := trivial
    have htick : (Event.trap tickFrame).Admissible k₁ := fun call hcall =>
      absurd hcall (not_calls_tickFrame call)
    exact (h₀.step ⟨hcreate, hstep₁⟩).step ⟨htick, hstep₂⟩
  obtain ⟨k, hstep, hadm, hcrowd, hne⟩ := Populated_mapPage hpop₂ hgap hstrict rfl
  exact ⟨T, k, hreach.step ⟨hadm, hstep⟩, hcrowd, hne⟩

/-- `sys_exofork` takes one page. -/
lemma Crowd.fork (h : Crowd T n k) (hn : n < NASID) {pp : ℕ} {prest : List ℕ}
    (hf : k.pm.pageFreeList = pp :: prest) : ∃ k',
      k.Calls .exofork (k.nextId n) k' ∧ Crowd T (n + 1) k' ∧ k'.pm.pageFreeList = prest ∧
        ∀ i < PDX UTOP, k'.pm.mem (k'.envs n).envPgdir i = 0#32 := by
  have hNENV : NENV = 1024 := rfl
  have hNASID : NASID = 64 := rfl
  have hfree : k.envFreeList = n :: List.range' (n + 1) (NENV + 1 - (n + 1)) := by
    rw [h.free, show NENV + 1 - n = NENV + 1 - (n + 1) + 1 by omega, List.range'_succ]
  have hasid : ((List.range NASID).find? fun i => !asidUsed k.asidBitmap i) = some n := by
    rw [List.find?_eq_some_iff_getElem]
    refine ⟨by simp [h.asid], n, by simpa using hn, by simp, fun j hj => by simp [h.asid, hj]⟩
  have hne : k.curenv ≠ none := by simp [h.cur]
  have hrun := run_sysExofork (k := k.entering Syscall.exofork.frame) h.cur hfree hf hasid
  have hstep := step_call_ok hne (Syscall.frame_calls _) hrun
  have hadm := admissible_exofork k
  refine ⟨_, ⟨_, Syscall.frame_calls _, hadm, hstep, returning_reg _ _⟩, ?_, rfl, fun i hi => ?_⟩
  swap
  · have hbase : k.basePgdir ≠ pp := by
      rw [h.kInv.base_eq]
      exact fun hc => T.base_notMem (hc ▸ (h.kInv.pages.fresh hf).1)
    have hUTOP : PDX UTOP = 509 := by decide
    have hpgdir : (((k.entering Syscall.exofork.frame).forked 0 n
        (List.range' (n + 1) (NENV + 1 - (n + 1))) pp prest n).envs n).envPgdir = pp := by
      simp [Kernel.forked, Kernel.allocated]
    refine (congrArg (fun f => (k.setupVm pp prest).mem f i) hpgdir).trans ?_
    rw [setupVm_mem_self hbase (by omega), if_pos (.inl hi)]
  have hkInv := hstep.kInv h.kInv hadm (serves_call h.strict)
  have hn0 : (0 : ℕ) ≠ n := by
    rintro rfl
    exact h.live (h.kInv.free_free 0 (by simp [hfree])).1
  set k' := ((k.entering Syscall.exofork.frame).forked 0 n
    (List.range' (n + 1) (NENV + 1 - (n + 1))) pp
    prest n).returning ((k.entering Syscall.exofork.frame).nextId n) with hk'
  have henv : k'.envs 0 = k.envs 0 := by
    simp [hk', Kernel.returning, Kernel.forked, Kernel.allocated, Kernel.entering, hn0]
  have hd : k.dirs 0 = some (k.envs 0).envPgdir := dirs_of_ne_free h.live
  have hentry : ∀ v < (VPN UTOP).toNat, k'.pageEntry 0 v = k.pageEntry 0 v := by
    intro v hv
    rw [Kernel.pageEntry, henv]
    exact (h.kInv.entryAt_setupVm hf).2 0 _ _ hd (page_lt hv).2
  have h400 : 0x400 < (VPN UTOP).toNat := by decide
  refine ⟨hkInv, h.npage_eq, h.nUsed_eq, h.gap, h.strict, h.cur, henv ▸ h.live, rfl,
    fun i => ?_, ?_, h.sched,
    fun v hv hne => ?_, ?_⟩
  · change asidUsed (Function.update _ _ _) i = _
    rw [asidUsed_update, Bool.eq_iff_iff]
    change (asidUsed k.asidBitmap i || decide (i = n)) = true ↔ _
    rw [h.asid]
    simp
    omega
  · change k.mkenvidI + 1#32 = _
    rw [h.mkenvid]
    exact (BitVec.ofNat_add n 1).symm
  · rw [hentry v hv]
    exact h.empty v hv hne
  · obtain ⟨w, hw, href⟩ := h.page
    refine ⟨w, (hentry _ h400).trans hw, ?_⟩
    have hwpp : pteFrame w ≠ pp := by
      intro hc
      rw [hc, (h.kInv.pages.fresh hf).2.2.2] at href
      exact absurd href (by decide)
    change (k.setupVm pp prest).ppRef (pteFrame w) = 1#16
    simp [Kernel.setupVm, Pmap.copyWords, Pmap.addRef, hwpp, href]

/-- The page directory of the first env and its page are not free. -/
lemma Crowd.length_le (h : Crowd T n k) : k.pm.pageFreeList.length ≤ 63 := by
  obtain ⟨w, hw, -⟩ := h.page
  have hcounted := h.kInv.pages.counted
  have hdir : target T.own k.dirs k.pm (.dir 0) = some (k.envs 0).envPgdir := dirs_of_ne_free h.live
  have hpage := target_pageEntry (T := T) h.live (by decide) hw
  have hne : (k.envs 0).envPgdir ≠ pteFrame w := fun hc => by
    have hslot := hcounted.unique (.dir 0) _ _ trivial hdir (hc ▸ hpage)
    cases hslot
  have hnodup : ((k.envs 0).envPgdir :: pteFrame w :: k.pm.pageFreeList).Nodup := by
    simp only [List.nodup_cons, List.mem_cons, not_or]
    exact ⟨⟨hne, fun hc => hcounted.free_unref _ hc _ hdir⟩,
      fun hc => hcounted.free_unref _ hc _ hpage, hcounted.free_nodup⟩
  have hsub : ((k.envs 0).envPgdir :: pteFrame w :: k.pm.pageFreeList) ⊆ List.range' 1542 65 := by
    have hrange : ∀ p ∈ T.pool, p ∈ List.range' 1542 65 := by
      intro p hp
      have hlo := T.nUsed_le p hp
      have hhi := T.lt_npage p hp
      rw [h.nUsed_eq] at hlo
      rw [h.npage_eq] at hhi
      exact List.mem_range'_1.mpr ⟨hlo, hhi⟩
    intro p hp
    rcases List.mem_cons.mp hp with rfl | hp
    · exact hrange _ (hcounted.tgt_pool _ _ hdir)
    rcases List.mem_cons.mp hp with rfl | hp
    · exact hrange _ (hcounted.tgt_pool _ _ hpage)
    · exact hrange p (hcounted.free_pool p hp)
  have hle := (hnodup.subperm hsub).length_le
  simp only [List.length_cons, List.length_range'] at hle
  omega

/-- Env 0 forks until one page is left. -/
lemma exists_lastPage : ∃ T n k pp, MosRv.Reaches tinyMachine (fun k ev => ev.Admissible k) k ∧
    Crowd T n k ∧ n < NASID ∧ k.pm.pageFreeList = [pp] := by
  have hrun : ∀ (rest : List ℕ) {T : Template} {n : ℕ} {k : Kernel} {pp : ℕ},
      MosRv.Reaches tinyMachine (fun k ev => ev.Admissible k) k → Crowd T n k →
      k.pm.pageFreeList = pp :: rest → n + rest.length < NASID →
      ∃ T n k pp, MosRv.Reaches tinyMachine (fun k ev => ev.Admissible k) k ∧
        Crowd T n k ∧ n < NASID ∧ k.pm.pageFreeList = [pp] := by
    intro rest
    induction rest with
    | nil => exact fun {T n k pp} hr hc hf hlt => ⟨T, n, k, pp, hr, hc, hlt, hf⟩
    | cons pp' rest ih =>
        intro T n k pp hr hc hf hlt
        rw [List.length_cons] at hlt
        obtain ⟨k', hcall, hc', hf', -⟩ := hc.fork (by omega) hf
        exact ih (hcall.reaches hr) hc' hf' (by omega)
  obtain ⟨T, k, hr, hc, hne⟩ := exists_crowd
  obtain ⟨pp, rest, hf⟩ := List.exists_cons_of_ne_nil hne
  have hle := hc.length_le
  have hNASID : NASID = 64 := rfl
  rw [hf, List.length_cons] at hle
  exact hrun rest hr hc hf (by omega)

/-! ### Mapping without memory -/

lemma Calls.kInv {call : Syscall} {r : Word} {k' : Kernel} (h : k.Calls call r k') (hk : KInv T k)
    (hs : T.strict = false) : KInv T k' := by
  obtain ⟨tf, hcall, hadm, hstep, -⟩ := h
  refine hstep.kInv hk hadm ⟨fun hc => ?_, fun _ hstrict => absurd (hs.symm.trans hstrict) nofun⟩
  exact absurd (hcall.1.symm.trans hc) (by decide)

/-- A call that can be made. -/
lemma exists_calls (call : Syscall) {Q : Word → Kernel → Prop} (hcur : k.curenv ≠ none)
    (hadm : call.Admissible k) (hwp : wp call.run (k.entering call.frame) Q
      (fun x k₁ => ∃ err, x = .code err ∧ Q (-err.toWord) k₁) fun _ => False) :
    ∃ r k₁, k.Calls call r (k₁.returning r) ∧ Q r k₁ := by
  have htrap : wp (trap call.frame) k (fun _ k' => ∃ r k₁, k' = k₁.returning r ∧ Q r k₁)
      (fun _ _ => False) fun _ => False := by
    rw [wp_trap_call (Syscall.frame_calls _)]
    refine hwp.mono (fun r k₁ hq => ⟨r, k₁, rfl, hq⟩) ?_ fun _ hp => hp
    rintro x k₁ ⟨err, rfl, hq⟩
    exact ⟨_, k₁, rfl, hq⟩
  obtain ⟨u, k', hrun, r, k₁, rfl, hq⟩ := htrap.exists_ok
  refine ⟨r, k₁, ⟨_, Syscall.frame_calls _, ?_, ⟨.inl hcur, .inl hrun⟩, returning_reg _ _⟩, hq⟩
  exact fun call' hcall => hcall.unique (Syscall.frame_calls _) ▸ hadm

/-- Env 0 runs and has one page, its child `c` has no page table for it, and no page is free. -/
structure Stuck (T : Template) (c : ℕ) (child : Word) (k : Kernel) : Prop where
  kInv : KInv T k
  isChild : IsChild k 0 c child
  live : (k.envs 0).envStatus ≠ .free
  full : k.pm.pageFreeList = []
  pde : ¬ HasFlag (k.pm.pde (k.envs c).envPgdir (BitVec.ofNat 32 0x400 <<< 12)) PTE_V
  empty : ∀ v < (VPN UTOP).toNat, v ≠ 0x400 → k.pageEntry 0 v = none
  page : ∃ w, k.pageEntry 0 0x400 = some w ∧ k.pm.ppRef (pteFrame w) = 1#16
  sched : TailQueue.Rep k.envSchedList [0]

variable {c v : ℕ} {child perm cow r : Word} {k' : Kernel}

/-- The calls that touch no page. -/
lemma Stuck.congr (h : Stuck T c child k) (hk : KInv T k') (hfam : Family k k') (hpm : k'.pm = k.pm)
    (hcur : k'.curenv = k.curenv) (hsched : k'.envSchedList = k.envSchedList) :
    Stuck T c child k' where
  kInv := hk
  isChild := ⟨hcur.trans h.isChild.cur, h.isChild.ne, h.isChild.slot, h.isChild.ne_zero,
    fun hc => h.isChild.live ((hfam.free c).mp hc), (hfam.envId c).trans h.isChild.envId,
    (hfam.envParentId c).trans (h.isChild.envParentId.trans (hfam.envId 0).symm)⟩
  live := fun hc => h.live ((hfam.free 0).mp hc)
  full := hpm ▸ h.full
  pde := by
    rw [hpm, hfam.envPgdir]
    exact h.pde
  empty v hv hne := (hfam.pageEntry hpm 0 v).trans (h.empty v hv hne)
  page := by
    obtain ⟨w, hw, href⟩ := h.page
    exact ⟨w, (hfam.pageEntry hpm 0 _).trans hw, by rw [hpm, href]⟩
  sched := hsched ▸ h.sched

lemma Stuck.running (h : Stuck T c child k) : k.curenv ≠ none := by simp [h.isChild.cur]

lemma Stuck.eq_page (h : Stuck T c child k) (hv : v < (VPN UTOP).toNat) {w : Word}
    (hw : k.pageEntry 0 v = some w) : v = 0x400 := by
  by_contra hne
  exact absurd ((h.empty v hv hne).symm.trans hw) nofun

lemma Stuck.admissible (h : Stuck T c child k) (hv : v < (VPN UTOP).toNat) (hperm : perm < 0x400#32)
    (dstid : Word) : (Syscall.memMap 0#32 (BitVec.ofNat 32 v <<< 12) dstid
      (BitVec.ofNat 32 v <<< 12) perm).Admissible k := by
  intro pp perm' hm
  have hcur : k.envOf 0#32 = some 0 := (if_pos rfl).trans h.isChild.cur
  rw [Syscall.mapped, hcur, Option.bind_some, Option.map_eq_some_iff] at hm
  obtain ⟨pp', hpp, heq⟩ := hm
  obtain ⟨rfl, rfl⟩ := Prod.mk.inj heq
  refine ⟨fits_of_lt hperm _, ?_⟩
  obtain ⟨w', hw', rfl⟩ := Option.map_eq_some_iff.mp hpp
  obtain rfl := h.eq_page hv hw'
  obtain ⟨w, hw, href⟩ := h.page
  obtain rfl := Option.some.inj (hw.symm.trans hw')
  have hpool := h.kInv.pages.counted.tgt_pool _ _ (target_pageEntry h.live hv hw)
  have hle := (h.kInv.pageSafe (T.nUsed_le _ hpool)).count_le
  rw [href] at hle
  exact lt_of_le_of_lt hle (by decide)

/-- **A mapping call for the child** changes nothing. -/
lemma Stuck.map (h : Stuck T c child k) (hinv : EnvInv k) (hs : T.strict = false)
    (hv : v < (VPN UTOP).toNat) (hperm : perm < 0x400#32) : ∃ r k',
      k.Calls (.memMap 0#32 (BitVec.ofNat 32 v <<< 12) child (BitVec.ofNat 32 v <<< 12) perm) r k' ∧
        Stuck T c child k' := by
  obtain ⟨hva, hlt⟩ := page_lt hv
  have hd : k.dirs c = some (k.envs c).envPgdir := dirs_of_ne_free h.isChild.live
  have ho : T.own (PDX (BitVec.ofNat 32 v <<< 12)) = true := own_of_lt_UTOP hlt
  obtain ⟨r, k₁, hcall, tf, rfl⟩ := exists_calls _ (Q := fun _ k₁ => ∃ tf, k₁ = k.entering tf)
    h.running (h.admissible hv hperm child) (by
      rw [Syscall.run, sysMemMap]
      by_cases hill : isIllegalVa (BitVec.ofNat 32 v <<< 12) = true
      · rw [if_pos (.inl hill)]
        exact ⟨_, rfl, _, rfl⟩
      · have hself : ∀ tf, (k.entering tf).Resolves 0#32 true 0 := fun _ => .self rfl h.isChild.cur
        have hchild : ∀ tf, (k.entering tf).Resolves child true c := fun _ =>
          (h.isChild.resolves hinv).setKtf _
        rw [if_neg fun hc => hill (hc.elim id id), (hself _).wp, (hchild _).wp, wp_bind, wp_get,
          wp_bind, wp_liftPm]
        refine wp_pageLookup_entry (fun _ => ⟨_, rfl, _, rfl⟩)
          (fun w t j hw _ => ?_) fun w hw hge => ?_
        · have hw' : k.pageEntry 0 v = some w := hw
          obtain rfl := h.eq_page hv hw'
          have hpool := h.kInv.pages.counted.tgt_pool _ _ (target_pageEntry h.live hv hw')
          rw [wp_bind, wp_liftPm]
          refine (h.kInv.pages.wp_pageInsert_cases _ _ hd
            (lt_ULIM_of_lt_UTOP hlt) ho hpool).mono ?_ ?_
            fun _ hp => hp
          · intro _ m hcase
            have hfull := h.full
            cases hcase with
            | reflag ht => exact absurd ht.1 h.pde
            | replace ht => exact absurd ht.1 h.pde
            | fill ht => exact absurd ht.1 h.pde
            | grow _ hf => exact absurd (hfull.symm.trans hf) (by simp)
          · rintro x m ⟨rfl, rfl, -⟩
            exact ⟨_, rfl, _, rfl⟩
        · have hw' : k.pageEntry 0 v = some w := hw
          exact absurd (h.kInv.pages.target_lt (target_pageEntry h.live hv hw')) (not_lt.mpr hge))
  refine ⟨r, _, hcall, h.congr (Calls.kInv hcall h.kInv hs) (.of_envs rfl) rfl rfl rfl⟩

/-- The page is mapped where it is. -/
lemma insertCase_mapped {m m' : Pmap} {d pp : ℕ} {va w : Word} (h : InsertCase m d pp va perm m')
    (hw : m.entryAt d va = some w) (hpp : pteFrame w = pp) :
    m'.pageFreeList = m.pageFreeList ∧ m'.ppRef = m.ppRef := by
  have hent : ∀ {t}, m.TableAt d va t → validWord (m.mem t (PTX va)) = some w := fun ht => by
    rw [Pmap.entryAt, Pmap.walk_eq_some.mpr ⟨ht, rfl⟩] at hw
    exact hw
  cases h with
  | reflag => exact ⟨rfl, rfl⟩
  | replace ht hv hq hlt hne =>
      have hword := hent ht
      rw [validWord, if_pos hv] at hword
      obtain rfl := Option.some.inj hword
      exact absurd (hq.symm.trans hpp) hne
  | fill ht hv =>
      have hword := hent ht
      rw [validWord, if_neg hv] at hword
      cases hword
  | grow hv =>
      rw [Pmap.entryAt, Pmap.walk, if_neg hv] at hw
      cases hw

/-- **A mapping call for the parent** changes flags, at most. -/
lemma Stuck.remap (h : Stuck T c child k) (hs : T.strict = false) (hv : v < (VPN UTOP).toNat)
    (hperm : perm < 0x400#32) : ∃ r k',
      k.Calls (.memMap 0#32 (BitVec.ofNat 32 v <<< 12) 0#32 (BitVec.ofNat 32 v <<< 12) perm) r k' ∧
        Stuck T c child k' := by
  obtain ⟨hva, hlt⟩ := page_lt hv
  have hd : k.dirs 0 = some (k.envs 0).envPgdir := dirs_of_ne_free h.live
  have hdc : k.dirs c = some (k.envs c).envPgdir := dirs_of_ne_free h.isChild.live
  have ho : ∀ {v}, v < (VPN UTOP).toNat → T.own (PDX (BitVec.ofNat 32 v <<< 12)) = true :=
    fun hv => own_of_lt_UTOP (page_lt hv).2
  have hwf := h.kInv.pages.wellFormed
  obtain ⟨r, k₁, hcall, tf, m, rfl, hm⟩ := exists_calls _
    (Q := fun _ k₁ => ∃ tf m, k₁ = { k.entering tf with pm := m } ∧ (m = k.pm ∨ ∃ w,
      k.pageEntry 0 v = some w ∧ InsertCase k.pm (k.envs 0).envPgdir (pteFrame w)
        (BitVec.ofNat 32 v <<< 12) (perm ||| PTE_U) m))
    h.running (h.admissible hv hperm 0#32) (by
      rw [Syscall.run, sysMemMap]
      by_cases hill : isIllegalVa (BitVec.ofNat 32 v <<< 12) = true
      · rw [if_pos (.inl hill)]
        exact ⟨_, rfl, _, _, rfl, .inl rfl⟩
      · have hself : ∀ tf, (k.entering tf).Resolves 0#32 true 0 := fun _ => .self rfl h.isChild.cur
        rw [if_neg fun hc => hill (hc.elim id id), (hself _).wp, (hself _).wp, wp_bind, wp_get,
          wp_bind, wp_liftPm]
        refine wp_pageLookup_entry (fun _ => ⟨_, rfl, _, _, rfl, .inl rfl⟩) (fun w t j hw _ => ?_)
          fun w hw hge => ?_
        · have hpool := h.kInv.pages.counted.tgt_pool _ _ (target_pageEntry h.live hv hw)
          rw [wp_bind, wp_liftPm]
          refine (h.kInv.pages.wp_pageInsert_cases _ _ hd (lt_ULIM_of_lt_UTOP hlt) (ho hv)
            hpool).mono ?_ ?_ fun _ hp => hp
          · exact fun _ m hcase => ⟨_, m, rfl, .inr ⟨w, hw, hcase⟩⟩
          · rintro x m ⟨rfl, rfl, -⟩
            exact ⟨_, rfl, _, _, rfl, .inl rfl⟩
        · exact absurd (h.kInv.pages.target_lt (target_pageEntry h.live hv hw)) (not_lt.mpr hge))
  refine ⟨r, _, hcall, ?_⟩
  have hkInv := Calls.kInv hcall h.kInv hs
  obtain rfl | ⟨w, hw, hcase⟩ := hm
  · exact h.congr hkInv (.of_envs rfl) rfl rfl rfl
  obtain rfl := h.eq_page hv hw
  obtain ⟨hfree, href⟩ := insertCase_mapped hcase hw rfl
  have hentry : ∀ u < (VPN UTOP).toNat, m.entryAt (k.envs 0).envPgdir (BitVec.ofNat 32 u <<< 12) =
      if u = 0x400 then some (insertedWord (k.pageEntry 0 0x400) (pteFrame w) (perm ||| PTE_U))
      else k.pageEntry 0 u := by
    intro u hu
    rw [hcase.entryAt hwf h.kInv.pages.freeUnused hd (ho hv) hd (ho hu)]
    by_cases hu4 : u = 0x400
    · rw [if_pos ⟨rfl, by rw [hu4]⟩, if_pos hu4]
      rfl
    · rw [if_neg fun hc => hu4 ((VPN_page hu hv).mp hc.2), if_neg hu4]
      rfl
  refine ⟨hkInv, ⟨h.isChild.cur, h.isChild.ne, h.isChild.slot, h.isChild.ne_zero, h.isChild.live,
    h.isChild.envId, h.isChild.envParentId⟩, h.live, hfree.trans h.full, ?_, fun u hu hne => ?_,
    ?_, h.sched⟩
  · have hmem : m.mem (k.envs c).envPgdir (PDX (BitVec.ofNat 32 0x400 <<< 12)) =
        k.pm.mem (k.envs c).envPgdir (PDX (BitVec.ofNat 32 0x400 <<< 12)) := by
      refine hcase.mem_eq (fun ht => ?_) (by simp [h.full]) fun hc => ?_
      · exact hwf.dir_ne_table ((tableAt_iff (ho hv) hd).mp ht) hdc
      · exact absurd (hwf.dir_inj hd (hc ▸ hdc)) h.isChild.ne
    change ¬ HasFlag (m.mem (k.envs c).envPgdir _) PTE_V
    rw [hmem]
    exact h.pde
  · exact (hentry u hu).trans ((if_neg hne).trans (h.empty u hu hne))
  · obtain ⟨w', hw', href'⟩ := h.page
    obtain rfl := Option.some.inj (hw.symm.trans hw')
    have hpool := h.kInv.pages.counted.tgt_pool _ _ (target_pageEntry h.live hv hw)
    refine ⟨_, (hentry 0x400 hv).trans (if_pos rfl), ?_⟩
    rw [(insertedWord_spec _ (T.lt_max hpool) (or_PTE_U_lt hperm)).1]
    exact (congrFun href _).trans href'

lemma Stuck.setEntry (h : Stuck T c child k) (hinv : EnvInv k) (hs : T.strict = false) :
    ∃ r k', k.Calls (.setTlbModEntry child cow) r k' ∧ Stuck T c child k' := by
  obtain ⟨r, k₁, hcall, tf, u, rfl, hid, hparent, hdir, hfree⟩ := exists_calls
    (.setTlbModEntry child cow)
    (Q := fun _ k₁ => ∃ tf u, k₁ = { k.entering tf with envs := Function.update k.envs c u } ∧
      u.envId = (k.envs c).envId ∧ u.envParentId = (k.envs c).envParentId ∧
      u.envPgdir = (k.envs c).envPgdir ∧ u.envStatus = (k.envs c).envStatus)
    h.running (fun _ _ hm => absurd hm nofun) (by
      have hchild : ∀ tf, (k.entering tf).Resolves child true c := fun _ =>
        (h.isChild.resolves hinv).setKtf _
      rw [Syscall.run, sysSetTlbModEntry, (hchild _).wp, wp_bind, wp_modifyEnv, wp_pure]
      exact ⟨_, _, rfl, rfl, rfl, rfl, rfl⟩)
  exact ⟨r, _, hcall, h.congr (Calls.kInv hcall h.kInv hs)
    (.update (e := c) (u := u) rfl hid hparent hdir (by rw [hfree])) rfl rfl rfl⟩

lemma Stuck.setStatus (h : Stuck T c child k) (hinv : EnvInv k) :
    ∃ r k', k.Calls (.setEnvStatus child EnvStatus.runnable.toWord) r k' := by
  have hcmem : c ∉ [0] := by simp [h.isChild.ne]
  obtain ⟨q, hq, -⟩ := h.sched.insertTail hcmem
  have hproper : (TailQueue.Op.insertTail c).proper (NENV + 1) k.envSchedList = true := by
    change decide (c ∉ k.envSchedList.nodes (NENV + 1) k.envSchedList.first) = true
    rw [h.sched.nodes_eq (by simp)]
    exact decide_eq_true hcmem
  obtain ⟨r, k₁, hcall, -⟩ := exists_calls
    (.setEnvStatus child EnvStatus.runnable.toWord) (Q :=
      fun _ _ => True) h.running (fun _ _ hm => absurd hm nofun) (by
      have hchild : ∀ tf, (k.entering tf).Resolves child true c := fun _ =>
        (h.isChild.resolves hinv).setKtf _
      have hrun : Syscall.run (.setEnvStatus child EnvStatus.runnable.toWord) =
          setEnvStatus child .runnable := by
        rw [Syscall.run, sysSetEnvStatus, if_pos rfl]
      rw [hrun, setEnvStatus, (hchild _).wp, wp_bind, updateSchedList, wp_bind, wp_get, wp_ite]
      refine ⟨fun _ => ?_, fun _ => ?_⟩
      · rw [if_pos rfl]
        refine wp_onSchedList_proper (q := q) hproper hq ?_
        rw [wp_bind, wp_modifyEnv, wp_pure]
        trivial
      · rw [wp_pure, wp_bind, wp_modifyEnv, wp_pure]
        trivial)
  exact ⟨r, _, hcall⟩

end

/-! ### The run -/

/-- What `sys_exofork` returned, while `fork` is in its loops and after them. -/
def Pc.child : Pc → Option Word
  | .pde child _ | .pte child _ _ | .dup child _ _ | .map child _ _ _ _ | .remap child _ _ _
  | .setEntry child | .setStatus child => some child
  | .entry | .exofork | .returned _ => none

/-- How far it is to the end. -/
def Pc.left : Pc → ℕ
  | .pde _ i => (pdes - i) * 5000 + 3
  | .pte _ i j => (pdes - (i + 1)) * 5000 + 4 + (1024 - j) * 4
  | .dup _ i j => (pdes - (i + 1)) * 5000 + 3 + (1024 - j) * 4
  | .map _ i j _ _ => (pdes - (i + 1)) * 5000 + 2 + (1024 - j) * 4
  | .remap _ i j _ => (pdes - (i + 1)) * 5000 + 1 + (1024 - j) * 4
  | .setEntry _ => 2
  | .setStatus _ => 1
  | .entry | .exofork | .returned _ => 0

section

variable {T : Template} {k k' k₁ : Kernel} {x : State} {mc : Machine} {c : ℕ} {child cow : Word}

/-- `fork` is to copy the page, and has been stuck since `sys_exofork`. -/
structure Starved (T : Template) (c : ℕ) (child : Word) (k₁ : Kernel) (x : State) : Prop where
  stuck : Stuck T c child x.k
  pc : x.pc.child = some child
  forkedAt : x.forkedAt = some k₁
  passed : ∀ v k₂ shown, x.passed v = some (k₂, shown) → Stuck T c child k₂

/-- A page is passed. -/
lemma Starved.pass (h : Starved T c child k₁ x) {ps : ℕ → Option (Kernel × Bool)}
    (hk : Stuck T c child k')
    (pc : Pc) (hpc : pc.child = some child)
    (hps : ∀ v k₂ shown, ps v = some (k₂, shown) → k₂ = x.k ∨ x.passed v = some (k₂, shown)) :
    Starved T c child k₁ { x with k := k', pc := pc, passed := ps } where
  stuck := hk
  pc := hpc
  forkedAt := h.forkedAt
  passed v k₂ shown hv := (hps v k₂ shown hv).elim (fun hc => hc ▸ h.stuck) (h.passed v k₂ shown)

lemma Starved.keep (h : Starved T c child k₁ x) (hk : Stuck T c child k') (pc : Pc)
    (hpc : pc.child = some child) : Starved T c child k₁ { x with k := k', pc := pc } :=
  ⟨hk, hpc, h.forkedAt, h.passed⟩

lemma eq_of_update {ps : ℕ → Option (Kernel × Bool)} {u : ℕ} {b : Bool} (v : ℕ) (k₂ : Kernel)
    (shown : Bool) (h : Function.update ps u (some (k, b)) v = some (k₂, shown)) :
    k₂ = k ∨ ps v = some (k₂, shown) := by
  by_cases hv : v = u
  · subst hv
    rw [Function.update_self] at h
    exact .inl (Prod.mk.inj (Option.some.inj h)).1.symm
  · rw [Function.update_of_ne hv] at h
    exact .inr h

/-- **Every step comes nearer to the end**, and maps nothing. -/
lemma Starved.progress (hr : Reaches mc 0 cow x) (hs : T.strict = false)
    (h : Starved T c child k₁ x) (hne : x.pc ≠ .setStatus child) :
    ∃ x', Step 0 cow x x' ∧ Starved T c child k₁ x' ∧ x'.pc.left < x.pc.left := by
  obtain ⟨k, pc, forkedAt, passed⟩ := x
  have hinv : InvAt 0 ⟨k, pc, forkedAt, passed⟩ pc := hr.inv
  have henv : EnvInv k := hr.machine.envInv
  have hk : Stuck T c child k := h.stuck
  have hcur := hk.isChild.cur
  cases pc with
  | entry => exact absurd h.pc nofun
  | exofork => exact absurd h.pc nofun
  | returned r => exact absurd h.pc nofun
  | pde child' i =>
      obtain rfl : child' = child := Option.some.inj h.pc
      by_cases hi : i < pdes
      · by_cases hv : HasFlag (k.vpdWord (k.envs 0).envPgdir i) PTE_V
        · refine ⟨_, .pde rfl hcur hi hv, h.keep hk (.pte child' i 0) rfl, ?_⟩
          change (pdes - (i + 1)) * 5000 + 4 + (1024 - 0) * 4 < (pdes - i) * 5000 + 3
          omega
        · refine ⟨_, .pdeSkip rfl hcur hi hv, h.pass hk (.pde child' (i + 1)) rfl ?_, ?_⟩
          · intro v k₂ shown hps
            split_ifs at hps with hvi
            · exact .inl (Prod.mk.inj (Option.some.inj hps)).1.symm
            · exact .inr hps
          · change (pdes - (i + 1)) * 5000 + 3 < (pdes - i) * 5000 + 3
            omega
      · refine ⟨_, .pdeEnd rfl hcur (not_lt.mp hi), h.keep hk (.setEntry child') rfl, ?_⟩
        change 2 < (pdes - i) * 5000 + 3
        omega
  | pte child' i j =>
      obtain rfl : child' = child := Option.some.inj h.pc
      by_cases hj : j < 1024
      · by_cases hv : i * 1024 + j < (VPN USTACKTOP).toNat ∧
            HasFlag (k.vptWord (k.envs 0).envPgdir (i * 1024 + j)) PTE_V
        · refine ⟨_, .pte rfl hcur hj hv.1 hv.2, h.keep hk (.dup child' i j) rfl, ?_⟩
          change (pdes - (i + 1)) * 5000 + 3 + (1024 - j) * 4 <
            (pdes - (i + 1)) * 5000 + 4 + (1024 - j) * 4
          omega
        · refine ⟨_, .pteSkip rfl hcur hj hv,
            h.pass hk (.pte child' i (j + 1)) rfl eq_of_update, ?_⟩
          change (pdes - (i + 1)) * 5000 + 4 + (1024 - (j + 1)) * 4 <
            (pdes - (i + 1)) * 5000 + 4 + (1024 - j) * 4
          omega
      · refine ⟨_, .pteEnd rfl hcur (not_lt.mp hj), h.keep hk (.pde child' (i + 1)) rfl, ?_⟩
        change (pdes - (i + 1)) * 5000 + 3 < (pdes - (i + 1)) * 5000 + 4 + (1024 - j) * 4
        omega
  | dup child' i j =>
      obtain rfl : child' = child := Option.some.inj h.pc
      refine ⟨_, .dup rfl hcur, h.keep hk (.map child' i j _ _) rfl, ?_⟩
      change (pdes - (i + 1)) * 5000 + 2 + (1024 - j) * 4 <
        (pdes - (i + 1)) * 5000 + 3 + (1024 - j) * 4
      omega
  | map child' i j perm again =>
      obtain rfl : child' = child := Option.some.inj h.pc
      obtain ⟨hperm, hi, hj, -⟩ := hinv
      obtain ⟨r, k', hcall, hk'⟩ := hk.map henv hs (vpn_lt hi hj) hperm
      refine ⟨_, .map rfl hcur hcall, h.pass hk' _ (by cases again <;> rfl) eq_of_update, ?_⟩
      cases again with
      | true =>
          change (pdes - (i + 1)) * 5000 + 1 + (1024 - j) * 4 <
            (pdes - (i + 1)) * 5000 + 2 + (1024 - j) * 4
          omega
      | false =>
          change (pdes - (i + 1)) * 5000 + 4 + (1024 - (j + 1)) * 4 <
            (pdes - (i + 1)) * 5000 + 2 + (1024 - j) * 4
          omega
  | remap child' i j perm =>
      obtain rfl : child' = child := Option.some.inj h.pc
      obtain ⟨hperm, hi, hj, -⟩ := hinv
      obtain ⟨r, k', hcall, hk'⟩ := hk.remap hs (vpn_lt hi hj) hperm
      refine ⟨_, .remap rfl hcur hcall, h.keep hk' _ rfl, ?_⟩
      change (pdes - (i + 1)) * 5000 + 4 + (1024 - (j + 1)) * 4 <
        (pdes - (i + 1)) * 5000 + 1 + (1024 - j) * 4
      omega
  | setEntry child' =>
      obtain rfl : child' = child := Option.some.inj h.pc
      obtain ⟨r, k', hcall, hk'⟩ := @Stuck.setEntry _ _ _ _ cow hk henv hs
      exact ⟨_, .setEntry rfl hcur hcall, h.keep hk' (.setStatus child') rfl, Nat.lt_succ_self 1⟩
  | setStatus child' =>
      obtain rfl : child' = child := Option.some.inj h.pc
      exact absurd rfl hne

/-- The loops run to their end. -/
lemma Starved.finish (hs : T.strict = false) : ∀ (n : ℕ) {x : State}, Reaches mc 0 cow x →
    Starved T c child k₁ x → x.pc.left ≤ n → ∃ x', Reaches mc 0 cow x' ∧
      Starved T c child k₁ x' ∧ x'.pc = .setStatus child := by
  intro n
  induction n with
  | zero =>
      intro x hr h hle
      by_contra
      obtain ⟨x', -, -, hlt⟩ := h.progress hr hs fun hpc => by
        rw [hpc] at hle
        exact absurd hle (Nat.not_succ_le_zero 0)
      omega
  | succ n ih =>
      intro x hr h hle
      by_cases hpc : x.pc = .setStatus child
      · exact ⟨x, hr, h, hpc⟩
      · obtain ⟨x', hstep, h', hlt⟩ := h.progress hr hs hpc
        exact ih (hr.step (e := ()) hstep) h' (by omega)

/-- `fork` sets the entry for its own faults. -/
lemma Crowd.setEntry {n : ℕ} (h : Crowd T n k) : ∃ k',
    k.Calls (.setTlbModEntry 0#32 cow) 0#32 k' ∧ Crowd T n k' ∧ k'.pm = k.pm := by
  obtain ⟨r, k₁, hcall, tf, rfl⟩ := exists_calls (.setTlbModEntry 0#32 cow)
    (Q := fun _ k₁ => ∃ tf, k₁ = { k.entering tf with
      envs := Function.update k.envs 0 { k.envs 0 with envUserTlbModEntry := cow } })
    (fun hc => absurd (h.cur.symm.trans hc) nofun) (fun _ _ hm => absurd hm nofun) (by
      have hself : ∀ tf, (k.entering tf).Resolves 0#32 true 0 := fun _ => .self rfl h.cur
      rw [Syscall.run, sysSetTlbModEntry, (hself _).wp, wp_bind, wp_modifyEnv, wp_pure]
      exact ⟨_, rfl⟩)
  obtain rfl := calls_setTlbModEntry_self h.cur hcall
  obtain ⟨hfam, hpm⟩ := calls_setTlbModEntry hcall
  refine ⟨_, hcall, ⟨Calls.kInv hcall h.kInv h.strict, h.npage_eq, h.nUsed_eq, h.gap,
    h.strict, h.cur,
    fun hc => h.live ((hfam.free 0).mp hc), h.free, h.asid, h.mkenvid, h.sched,
      fun v hv hne => ?_, ?_⟩,
    hpm⟩
  · exact (hfam.pageEntry hpm 0 v).trans (h.empty v hv hne)
  · obtain ⟨w, hw, href⟩ := h.page
    exact ⟨w, (hfam.pageEntry hpm 0 _).trans hw, by rw [hpm, href]⟩

lemma Crowd.envFreeList_eq {n : ℕ} (h : Crowd T n k) (hn : n < NASID) :
    k.envFreeList = n :: List.range' (n + 1) (NENV + 1 - (n + 1)) := by
  have hNENV : NENV = 1024 := rfl
  have hNASID : NASID = 64 := rfl
  rw [h.free, show NENV + 1 - n = NENV + 1 - (n + 1) + 1 by omega, List.range'_succ]

lemma Crowd.nextId_pos {n : ℕ} (h : Crowd T n k) (hn : n < NASID) : 0 < (k.nextId n).toInt := by
  have hall : ∀ n < 64, 0 < (((BitVec.ofNat 32 n + 1#32) <<< (1 + LOG2NENV)) |||
      BitVec.ofNat 32 n).toInt := by decide
  rw [Kernel.nextId, h.mkenvid]
  exact hall n hn

/-- The child for whose page directory the last page went. -/
lemma Crowd.stuck {n : ℕ} (h : Crowd T n k) (hn : n < NASID)
    (hcall : k.Calls .exofork (k.nextId n) k') (h' : Crowd T (n + 1) k')
    (hinv : EnvInv k) (hfull : k'.pm.pageFreeList = [])
    (hzero : ∀ i < PDX UTOP, k'.pm.mem (k'.envs n).envPgdir i = 0#32) :
    Stuck T n (k.nextId n) k' := by
  have hNENV : NENV = 1024 := rfl
  have hNASID : NASID = 64 := rfl
  have hpos := h.nextId_pos hn
  have hid : k.nextId n ≠ 0#32 := fun hc => by
    rw [hc] at hpos
    exact absurd hpos (by decide)
  rcases calls_exofork h.kInv hinv h.cur hcall with ⟨-, hneg, -⟩ |
    ⟨c, rest, -, hl, -, hother, hcfree, hlive, hid', hparent, -⟩
  · exact absurd hpos (not_lt.mpr hneg.le)
  · obtain ⟨rfl, -⟩ := List.cons.inj (hl.symm.trans (h.envFreeList_eq hn))
    have hne : c ≠ 0 := by
      rintro rfl
      exact h.live hcfree
    refine ⟨h'.kInv, ⟨h'.cur, hne, by omega, hid, hlive, hid', ?_⟩, h'.live, hfull, ?_, h'.empty,
      h'.page, h'.sched⟩
    · rw [hparent, hother 0 hne.symm]
    · have hlt : PDX (BitVec.ofNat 32 0x400 <<< 12) < PDX UTOP := by decide
      rw [Pmap.pde, hzero _ hlt]
      exact not_hasFlag_zero _

/-- Where `fork` returns an empty child. -/
structure Empty (cow : Word) (x : State) (r : Word) : Prop where
  reached : Reaches tinyMachine 0 cow x
  pc : x.pc = .returned r
  pos : 0 < r.toInt
  lacks : ¬ x.Suffices 0

lemma exists_empty (cow : Word) : ∃ x r, Empty cow x r := by
  have hNASID : NASID = 64 := rfl
  obtain ⟨T, n, k, pp, hr, hc, hn, hf⟩ := exists_lastPage
  -- the entry for the parent's own faults
  obtain ⟨k₁, hcall₁, hc₁, hpm⟩ := hc.setEntry
  have hr₁ : ∃ k₁, Reaches tinyMachine 0 cow ⟨k₁, .exofork, none, fun _ => none⟩ ∧ Crowd T n k₁ ∧
      k₁.pm.pageFreeList = [pp] := by
    have hr₀ : Reaches tinyMachine 0 cow ⟨k, .entry, none, fun _ => none⟩ :=
      .init ⟨hr, hc.cur, rfl, rfl, fun _ => rfl⟩
    by_cases hset : (k.envs 0).envUserTlbModEntry = cow
    · exact ⟨k, hr₀.step (e := ()) (.entrySet rfl hc.cur hset), hc, hf⟩
    · have hr₁ := hr₀.step (e := ()) (.entryCall rfl hc.cur hset hcall₁)
      rw [if_neg (by decide)] at hr₁
      exact ⟨k₁, hr₁, hc₁, hpm ▸ hf⟩
  obtain ⟨k₁, hr₁, hc₁, hf₁⟩ := hr₁
  -- the child takes the last page
  obtain ⟨k₂, hcall₂, hc₂, hf₂, hzero⟩ := hc₁.fork hn hf₁
  have hpos := hc₁.nextId_pos hn
  have hid : k₁.nextId n ≠ 0#32 := fun hid => by
    rw [hid] at hpos
    exact absurd hpos (by decide)
  have hr₂ := hr₁.step (e := ()) (.exofork rfl hc₁.cur hcall₂)
  rw [if_neg hid] at hr₂
  have hstuck := hc₁.stuck hn hcall₂ hc₂ hr₁.machine.envInv hf₂ hzero
  have hstarved : Starved T n (k₁.nextId n) k₁
      ⟨k₂, .pde (k₁.nextId n) 0, some k₁, fun _ => none⟩ := ⟨hstuck, rfl, rfl, nofun⟩
  -- the loops
  obtain ⟨x, hr₃, h₃, hpc⟩ := hstarved.finish hc₂.strict _ hr₂ le_rfl
  obtain ⟨r, k₄, hcall₄⟩ := h₃.stuck.setStatus hr₃.machine.envInv
  have hr₄ := hr₃.step (e := ()) (.setStatus hpc h₃.stuck.isChild.cur hcall₄)
  refine ⟨_, _, hr₄, rfl, hpos, ?_⟩
  have hok : ¬ ForkFails k₁ := by
    rintro (hl | hp | ha)
    · exact absurd ((hc₁.envFreeList_eq hn).symm.trans hl) nofun
    · exact absurd (hf₁.symm.trans hp) nofun
    · refine ha fun hnone => ?_
      have hused := List.find?_eq_none.mp hnone n (List.mem_range.mpr hn)
      simp [hc₁.asid] at hused
  rintro ⟨k, hk, hsuff⟩
  obtain rfl := Option.some.inj (hk.symm.trans h₃.forkedAt)
  obtain ⟨c, rest, hl, -, hall⟩ := hsuff.resolve_left hok
  obtain ⟨rfl, -⟩ := List.cons.inj (hl.symm.trans (hc₁.envFreeList_eq hn))
  -- `fork` was done with the page when nothing was left
  have hinv := hr₃.inv
  rw [Inv, hpc] at hinv
  obtain ⟨⟨k', hk', hfails⟩, -, -⟩ | ⟨c', hmade⟩ := hinv
  · obtain rfl := Option.some.inj (hk'.symm.trans h₃.forkedAt)
    exact hok hfails
  obtain ⟨⟨k', shown⟩, hpassed⟩ :=
    Option.isSome_iff_exists.mp ((hmade.passed 0x400 (by decide)).mpr (by decide))
  have hstuck' := h₃.passed 0x400 k' shown hpassed
  obtain ⟨w, hw, -⟩ := hstuck'.page
  obtain ⟨-, -, hpde | hfree⟩ := hall 0x400 (by decide) k' shown hpassed (by rw [hw]; nofun)
  · exact hstuck'.pde hpde
  · exact hfree hstuck'.full

/-- **With one page left, `fork` returns a child without pages.** -/
theorem fork_child_empty : ∃ x r, Reaches tinyMachine 0 0x400100#32 x ∧ x.pc = .returned r ∧
    0 < r.toInt ∧ ¬ x.AllOrNothing 0 r := by
  obtain ⟨x, r, h⟩ := exists_empty 0x400100#32
  refine ⟨x, r, h.reached, h.pc, h.pos, fun hall => h.lacks ?_⟩
  have hinv := h.reached.inv
  rw [Inv, h.pc] at hinv
  exact hinv.mp hall

/-- The same run. -/
theorem fork_all_or_nothing_iff_tiny : ∃ x r, Reaches tinyMachine 0 0x400100#32 x ∧
    x.pc = .returned r ∧ (x.AllOrNothing 0 r ↔ x.Suffices 0) := by
  obtain ⟨x, r, h⟩ := exists_empty 0x400100#32
  exact ⟨x, r, h.reached, h.pc, fork_all_or_nothing_iff h.reached h.pc⟩

end

end Fork

end MosRv
