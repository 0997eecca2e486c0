import MosRv.Lib.CopyOnWrite
import MosRv.User.Calls

/-!
# Processes that are related by `fork`

A process and its descendants map pages in common: those with `PTE_LIBRARY` on purpose, the others
until someone stores to them.  `Relatives.State` is the machine with the set of these processes and
the places at which their calls of `fork` are; `Relatives.Step` is what they do, in any order, and
between any steps of the other envs: stores, demand faults, copies on write, the calls that map and
unmap pages, every step of `fork`, and exits.

`State.view` is the memory of these processes as pages, frames and contents, and `Relatives.Ok` is
what holds of it throughout.
-/

namespace MosRv

open Prog CopyOnWrite

namespace Relatives

/-- The pages of a program: those that `fork` looks at, but for the one that `cow_entry` works with.
-/
def IsPage (v : ℕ) : Prop := v < (VPN USTACKTOP).toNat ∧ v ≠ (VPN UCOW).toNat

def flagsOf (w : Word) : Flags where
  write := HasFlag w PTE_W
  onWrite := HasFlag w PTE_COW
  shared := HasFlag w PTE_LIBRARY

/-- The bytes of a page. -/
abbrev Page := Fin 4096 → BitVec 8

abbrev Act := CopyOnWrite.Act ℕ ℕ ℕ Page

def pageOf (g : ℕ → Word) : Page := fun i => pageByte g i

/-- The child that a call of `fork` is making. -/
def childOf : Fork.Pc → Option Word
  | .entry | .exofork | .returned _ => none
  | .pde child _ | .pte child _ _ | .dup child _ _ | .map child _ _ _ _ | .remap child _ _ _
  | .setEntry child | .setStatus child => some child

/-- The machine, the processes, and where their calls of `fork` are. -/
structure State where
  k : Kernel
  members : Set ℕ
  forks : ℕ → Option Fork.Pc

namespace State

variable (x : State)

/-- `p` is making `c`. -/
def Makes (p c : ℕ) : Prop :=
  ∃ pc child, x.forks p = some pc ∧ childOf pc = some child ∧ (x.k.envs c).envId = child

/-- The process `p` runs; a child does not before the call of `fork` is over, as `sys_exofork`
leaves it not runnable. -/
structure Runs (p : ℕ) : Prop where
  cur : x.k.curenv = some p
  mem : p ∈ x.members
  made : ∀ q, ¬ x.Makes q p

/-- `duppage` has mapped the page `v` in the child `c`, and is still to map it in the parent. -/
def Sending (c v : ℕ) : Prop :=
  ∃ p child i j perm, x.forks p = some (.remap child i j perm) ∧ (x.k.envs c).envId = child ∧
    v = i * 1024 + j

open Classical in
/-- **The memory of the processes.**  A page that is being sent is not the child's yet. -/
noncomputable def view : Frames ℕ ℕ ℕ Page where
  entry p v := if p ∈ x.members ∧ IsPage v ∧ ¬ x.Sending p v then
    (x.k.pageEntry p v).map fun w => (pteFrame w, flagsOf w) else none
  content f := pageOf (x.k.pm.mem f)

/-- The pages that a step of `fork` gives to the child. -/
def forkAct (p : ℕ) : Fork.Pc → Act
  | .map child i j _ false => .dup p (ENVX child) (i * 1024 + j)
  | .remap child i j _ => .dup p (ENVX child) (i * 1024 + j)
  | _ => .idle

end State

/-- **What the processes and the others do**, where `cow` is the address of `cow_entry`. -/
inductive Step (cow : Word) (frame : Syscall → Trapframe) (x : State) : Act → State → Prop
  | store {p : ℕ} {va : Word} {b : BitVec 8} {k' : Kernel} (hp : x.Runs p)
      (hva : IsPage (VPN va).toNat) (h : MosRv.Step x.k (.store va b) k') :
      Step cow frame x (.store p (VPN va).toNat fun g =>
        Function.update g ⟨va.toNat % 4096, Nat.mod_lt _ (by decide)⟩ b) { x with k := k' }
  /-- A store fault, and `cow_entry`.  No call of `fork` of the process is about to map the page. -/
  | copy {p : ℕ} {w : Word} {tf : Trapframe} {b : Bool} {k' : Kernel} (hp : x.Runs p)
      (hva : IsPage (VPN tf.badvaddr).toNat) (hfault : CowFault x.k p cow tf w)
      (hfork : ∀ child i j perm again, x.forks p = some (.map child i j perm again) →
        (VPN tf.badvaddr).toNat ≠ i * 1024 + j)
      (h : trapToCow cow frame tf x.k = .ok b k') :
      Step cow frame x (.copy p (VPN tf.badvaddr).toNat) { x with k := k' }
  | demand {p : ℕ} {tf : Trapframe} {k' : Kernel} (hp : x.Runs p)
      (hcause : tf.cause = CAUSE_FAULT_LOAD ∨ tf.cause = CAUSE_FAULT_STORE)
      (hva : IsPage (VPN tf.badvaddr).toNat) (hno : x.k.entry p tf.badvaddr = none)
      (h : MosRv.Step x.k (.trap tf) k') :
      Step cow frame x (.touch p (VPN tf.badvaddr).toNat true fun _ => 0#8) { x with k := k' }
  /-- `sys_mem_alloc`, for a page of the process's own … -/
  | alloc {p : ℕ} {va perm : Word} {k' : Kernel} (hp : x.Runs p) (hidle : x.forks p = none)
      (hva : IsPage (VPN va).toNat) (hperm : perm < 0x400#32) (hown : ¬ HasFlag perm PTE_LIBRARY)
      (h : x.k.Calls (.memAlloc 0#32 va perm) 0#32 k') :
      Step cow frame x (.touch p (VPN va).toNat (flagsOf perm).stores fun _ => 0#8)
        { x with k := k' }
  /-- … and for one that is shared. -/
  | allocShared {p f : ℕ} {va perm : Word} {k' : Kernel} (hp : x.Runs p) (hidle : x.forks p = none)
      (hva : IsPage (VPN va).toNat) (hperm : perm < 0x400#32) (hshared : HasFlag perm PTE_LIBRARY)
      (hcow : ¬ HasFlag perm PTE_COW) (h : x.k.Calls (.memAlloc 0#32 va perm) 0#32 k')
      (hf : (k'.entry p va).map pteFrame = some f) :
      Step cow frame x (.link p (VPN va).toNat (flagsOf perm).stores f fun _ => 0#8)
        { x with k := k' }
  /-- `sys_mem_map` of a page that is shared. -/
  | share {p : ℕ} {srcva va perm w : Word} {k' : Kernel} (hp : x.Runs p) (hidle : x.forks p = none)
      (hsrc : IsPage (VPN srcva).toNat) (hw : x.k.entry p srcva = some w)
      (hlib : HasFlag w PTE_LIBRARY) (hva : IsPage (VPN va).toNat) (hperm : perm < 0x400#32)
      (hshared : HasFlag perm PTE_LIBRARY) (hcow : ¬ HasFlag perm PTE_COW)
      (h : x.k.Calls (.memMap 0#32 srcva 0#32 va perm) 0#32 k') :
      Step cow frame x (.link p (VPN va).toNat (flagsOf perm).stores (pteFrame w)
        (pageOf (x.k.pm.mem (pteFrame w)))) { x with k := k' }
  | unmap {p : ℕ} {va : Word} {k' : Kernel} (hp : x.Runs p) (hidle : x.forks p = none)
      (hva : IsPage (VPN va).toNat) (h : x.k.Calls (.memUnmap 0#32 va) 0#32 k') :
      Step cow frame x (.drop fun q u => q = p ∧ u = (VPN va).toNat) { x with k := k' }
  /-- `exit` ends in `sys_env_destroy(0)`. -/
  | exit {p : ℕ} {tf : Trapframe} {k' : Kernel} (hp : x.Runs p) (hidle : x.forks p = none)
      (hcall : tf.Calls (.envDestroy 0#32)) (h : MosRv.Step x.k (.trap tf) k') :
      Step cow frame x (.drop fun q _ => q = p) { x with k := k', members := x.members \ {p} }
  /-- Anything that leaves the pages alone, and the envs but for their contexts and messages. -/
  | idle {ev : Event} {k' : Kernel} (hadm : ev.Admissible x.k) (h : MosRv.Step x.k ev k')
      (hpm : k'.pm = x.k.pm) (hfam : Fork.Family x.k k') : Step cow frame x .idle { x with k := k' }
  /-- Another env does something that does not reach the processes. -/
  | outside {k' : Kernel} (h : OutsideStep x.members x.k k') :
      Step cow frame x (.outside fun f => pageOf (k'.pm.mem f)) { x with k := k' }
  /-- `fork` is called. -/
  | call {p : ℕ} (hp : x.Runs p) (hidle : x.forks p = none) :
      Step cow frame x .idle { x with forks := Function.update x.forks p (some .entry) }
  /-- A step of `fork`; its calls of `sys_exofork` and, for the child, of `sys_mem_map` succeed. -/
  | fork {p : ℕ} {pc : Fork.Pc} {y : Fork.State} (hp : x.Runs p) (hpc : x.forks p = some pc)
      (h : Fork.Step p cow ⟨x.k, pc, none, fun _ => none⟩ y) (hne : y.pc ≠ pc)
      (hexofork : pc = .exofork → ¬ Fork.ForkFails x.k)
      (hmap : ∀ child i j perm again, pc = .map child i j perm again → y.k.ktf.regs 10 = 0#32) :
      Step cow frame x (State.forkAct p pc) { x with
        k := y.k
        members := x.members ∪ {e | ¬ x.k.Live e ∧ y.k.Live e}
        forks := Function.update x.forks p (some y.pc) }
  /-- `fork` returns. -/
  | ret {p : ℕ} {r : Word} (hp : x.Runs p) (hpc : x.forks p = some (.returned r)) :
      Step cow frame x .idle { x with forks := Function.update x.forks p none }

/-! ## The invariant -/

/-- What holds of the pages of the processes in `S`. -/
structure Pages (k : Kernel) (S : Set ℕ) : Prop where
  live : ∀ p ∈ S, k.Live p
  /-- No page is mapped where `vpt` and `vpd` are read. -/
  window : ∀ p ∈ S, ∀ va, UVPT ≤ va → va < ULIM → k.entry p va = none
  scratch : ∀ p ∈ S, k.entry p UCOW = none
  /-- The exception stack is a page of its own. -/
  xstack : ∀ p ∈ S, ∀ wx, k.entry p XSTACK = some wx → ∀ q va w, k.Live q → IsOwnVa va →
    k.entry q va = some w → pteFrame w = pteFrame wx → q = p ∧ VPN va = VPN XSTACK
  /-- The pages that are not shared on purpose are mapped by these processes only. -/
  own : ∀ p ∈ S, ∀ va w, IsPage (VPN va).toNat → k.entry p va = some w → ¬ HasFlag w PTE_LIBRARY →
    ∀ q va' w', k.Live q → IsOwnVa va' → k.entry q va' = some w' → pteFrame w' = pteFrame w →
      q ∈ S ∧ IsPage (VPN va').toNat

/-- `p` is making the child `c`, and has not sent a page from `n` on. -/
structure Making (x : State) (p c : ℕ) (child : Word) (n : ℕ) : Prop where
  mem : c ∈ x.members
  ne : c ≠ p
  slot : c < NENV
  ne_zero : child ≠ 0#32
  envId : (x.k.envs c).envId = child
  envParentId : (x.k.envs c).envParentId = (x.k.envs p).envId
  idle : x.forks c = none
  empty : ∀ v, n ≤ v → IsPage v → x.k.pageEntry c v = none

/-- What holds at each place of `fork`. -/
def At (x : State) (p : ℕ) : Fork.Pc → Prop
  | .entry | .exofork | .returned _ => True
  | .pde child i => ∃ c, Making x p c child (i * 1024)
  | .pte child i j => j ≤ 1024 ∧ ∃ c, Making x p c child (i * 1024 + j)
  | .dup child i j => j < 1024 ∧ IsPage (i * 1024 + j) ∧ x.k.pageEntry p (i * 1024 + j) ≠ none ∧
      ∃ c, Making x p c child (i * 1024 + j)
  | .map child i j perm again => j < 1024 ∧ IsPage (i * 1024 + j) ∧
      (∃ w, x.k.pageEntry p (i * 1024 + j) = some w ∧ Fork.duppage (pteBits w) = (perm, again)) ∧
      ∃ c, Making x p c child (i * 1024 + j)
  | .remap child i j perm => j < 1024 ∧ IsPage (i * 1024 + j) ∧ ∃ c w wc,
      isIllegalVa (BitVec.ofNat 32 (i * 1024 + j) <<< 12) = false ∧
      x.k.pageEntry p (i * 1024 + j) = some w ∧ Fork.duppage (pteBits w) = (perm, true) ∧
      x.k.pageEntry c (i * 1024 + j) = some wc ∧ pteFrame wc = pteFrame w ∧
      flagsOf wc = (flagsOf w).dup ∧ Making x p c child (i * 1024 + (j + 1))
  | .setEntry child | .setStatus child => ∃ c n, Making x p c child n

/-- **The invariant.** -/
structure Ok (x : State) : Prop where
  pages : Pages x.k x.members
  forks : ∀ p pc, x.forks p = some pc → p ∈ x.members ∧ At x p pc
  sound : x.view.Sound

section

variable {mc : Machine} {T : Template} {k k' : Kernel} {S : Set ℕ} {x x' : State} {e p q c v f : ℕ}
  {va y w : Word} {o : Option Word} {pc : Fork.Pc} {child : Word}

/-! ## Addresses -/

lemma IsPage.lt_UTOP (h : IsPage v) : v < (VPN UTOP).toNat := by
  have hS : (VPN USTACKTOP).toNat = 0x7f3fe := by decide
  have hU : (VPN UTOP).toNat = 0x7f400 := by decide
  have := h.1
  omega

lemma VPN_pageVa (h : IsPage v) : (VPN (BitVec.ofNat 32 v <<< 12)).toNat = v := by
  rw [VPN_toNat, (Fork.page_lt h.lt_UTOP).1]
  omega

/-- A page is given by any of its addresses. -/
lemma pageEntry_VPN (k : Kernel) (e : ℕ) (va : Word) :
    k.pageEntry e (VPN va).toNat = k.entry e va := by
  refine entry_of_VPN (k := k) (e := e) ?_
  have hva := va.isLt
  rw [← BitVec.toNat_inj, VPN_toNat, BitVec.toNat_shiftLeft, BitVec.toNat_ofNat, Nat.shiftLeft_eq,
    VPN_toNat]
  omega

lemma IsPage.isOwnVa (h : IsPage (VPN va).toNat) : IsOwnVa va := by
  refine isOwnVa_of_lt ?_
  have hlt := h.lt_UTOP
  have hU : UTOP.toNat = 0x7f400000 := by decide
  have hV : (VPN UTOP).toNat = 0x7f400 := by decide
  rw [VPN_toNat va, hV] at hlt
  rw [BitVec.lt_def, hU]
  omega

lemma IsPage.lt_UVPT (h : IsPage (VPN va).toNat) : va < UVPT := by
  have hS : (VPN USTACKTOP).toNat = 0x7f3fe := by decide
  have hU : UVPT.toNat = 0x7fc00000 := by decide
  have hlt := h.1
  rw [VPN_toNat va, hS] at hlt
  rw [BitVec.lt_def, hU]
  omega

lemma isOwnVa_page (h : IsPage v) : IsOwnVa (BitVec.ofNat 32 v <<< 12) :=
  isOwnVa_of_lt (Fork.page_lt h.lt_UTOP).2

lemma isOwnVa_window (hlo : UVPT ≤ va) (hhi : va < ULIM) : IsOwnVa va := by
  have hU : UVPT.toNat = 0x7fc00000 := by decide
  have hP : PDX UVPT = 511 := by decide
  rw [BitVec.le_def, hU] at hlo
  rw [BitVec.lt_def, ULIM_toNat] at hhi
  rw [IsOwnVa, ownUser, decide_eq_true_iff, PDX_eq va, hP]
  exact .inr (by omega)

lemma isOwnVa_cases (h : IsOwnVa va) : va < UTOP ∨ UVPT ≤ va ∧ va < ULIM := by
  have hT : UTOP.toNat = 0x7f400000 := by decide
  have hU : UVPT.toNat = 0x7fc00000 := by decide
  have hPT : PDX UTOP = 509 := by decide
  have hPU : PDX UVPT = 511 := by decide
  have hva := va.isLt
  rw [IsOwnVa, ownUser, decide_eq_true_iff, PDX_eq va, hPT, hPU] at h
  rw [BitVec.lt_def, BitVec.le_def, BitVec.lt_def, hT, hU, ULIM_toNat]
  omega

lemma IsPage.ne_XSTACK (h : IsPage (VPN va).toNat) : VPN XSTACK ≠ VPN va := by
  intro hc
  have hX : ¬ IsPage (VPN XSTACK).toNat := fun hp => absurd hp.1 (by decide)
  exact hX (hc ▸ h)

lemma IsPage.ne_UCOW (h : IsPage (VPN va).toNat) : VPN UCOW ≠ VPN va := fun hc => h.2 (hc ▸ rfl)

lemma IsPage.ne_window (h : IsPage (VPN va).toNat) (hlo : UVPT ≤ y) : VPN y ≠ VPN va := by
  intro hc
  have hU : UVPT.toNat = 0x7fc00000 := by decide
  have hS : (VPN USTACKTOP).toNat = 0x7f3fe := by decide
  have hlt := h.1
  rw [← hc, VPN_toNat, hS] at hlt
  rw [BitVec.le_def, hU] at hlo
  omega

/-! ## Flags -/

lemma hasFlag_and_of {m flag : Word} (h : m &&& flag = flag) :
    HasFlag (w &&& m) flag ↔ HasFlag w flag := by rw [HasFlag, HasFlag, BitVec.and_assoc, h]

lemma not_hasFlag_and {m flag : Word} (h : m &&& flag = 0#32) : ¬ HasFlag (w &&& m) flag := by
  rw [HasFlag, BitVec.and_assoc, h]
  simp

lemma flagsOf_congr {w' : Word} (hW : HasFlag w' PTE_W ↔ HasFlag w PTE_W)
    (hC : HasFlag w' PTE_COW ↔ HasFlag w PTE_COW)
    (hL : HasFlag w' PTE_LIBRARY ↔ HasFlag w PTE_LIBRARY) : flagsOf w' = flagsOf w := by
  simp only [flagsOf, hW, hC, hL]

lemma flagsOf_pteBits : flagsOf (pteBits w) = flagsOf w :=
  flagsOf_congr (hasFlag_pteBits (by decide)) (hasFlag_pteBits (by decide))
    (hasFlag_pteBits (by decide))

lemma flagsOf_entryFlags (perm : Word) : flagsOf (entryFlags (perm ||| PTE_U)) = flagsOf perm := by
  have hno : ∀ flag : Word, ¬ HasFlag PTE_U flag → ¬ HasFlag PTE_A flag → ¬ HasFlag PTE_D flag →
      ¬ HasFlag PTE_R flag → ¬ HasFlag PTE_V flag →
      (HasFlag (entryFlags (perm ||| PTE_U)) flag ↔ HasFlag perm flag) := by
    intro flag hU hA hD hR hV
    simp [entryFlags, hU, hA, hD, hR, hV]
  exact flagsOf_congr (hno _ (by decide) (by decide) (by decide) (by decide) (by decide))
    (hno _ (by decide) (by decide) (by decide) (by decide) (by decide))
    (hno _ (by decide) (by decide) (by decide) (by decide) (by decide))

/-- The flags of an entry that a call has made. -/
lemma flagsOf_inserted (old : Option Word) {pp : ℕ} {perm : Word} (hpp : pp < 0x80000)
    (hperm : perm < 0x400#32) : flagsOf (insertedWord old pp (perm ||| PTE_U)) = flagsOf perm := by
  rw [← flagsOf_pteBits, (insertedWord_spec old hpp (Fork.or_PTE_U_lt hperm)).2, flagsOf_entryFlags]

/-- `cow_entry` changes the flags as it should … -/
lemma flagsOf_copied {w' : Word}
    (h : pteBits w' = entryFlags (((pteBits w &&& ~~~PTE_COW) ||| PTE_W) ||| PTE_U)) :
    flagsOf w' = (flagsOf w).copied := by
  have hL : HasFlag (pteBits w &&& ~~~PTE_COW) PTE_LIBRARY ↔ HasFlag w PTE_LIBRARY :=
    (hasFlag_and_of (by decide)).trans (hasFlag_pteBits (by decide))
  have hC : ¬ HasFlag (pteBits w &&& ~~~PTE_COW) PTE_COW := not_hasFlag_and (by decide)
  have hW : HasFlag PTE_W PTE_W ∧ ¬ HasFlag PTE_W PTE_COW ∧ ¬ HasFlag PTE_W PTE_LIBRARY := by decide
  rw [← flagsOf_pteBits, h, flagsOf_entryFlags, flagsOf, Flags.copied]
  simp [hL, hC, hW, flagsOf]

/-- … and so does `duppage`, … -/
lemma flagsOf_duppage : flagsOf (Fork.duppage (pteBits w)).1 = (flagsOf w).dup := by
  have hW : HasFlag (pteBits w) PTE_W ↔ HasFlag w PTE_W := hasFlag_pteBits (by decide)
  have hL : HasFlag (pteBits w) PTE_LIBRARY ↔ HasFlag w PTE_LIBRARY := hasFlag_pteBits (by decide)
  rw [Fork.duppage, Flags.dup]
  by_cases hc : ¬ HasFlag (pteBits w) PTE_W ∨ HasFlag (pteBits w) PTE_LIBRARY
  · have hno : ¬ ((flagsOf w).write && !(flagsOf w).shared) = true := by
      rw [hW, hL] at hc
      simpa [flagsOf, imp_iff_not_or] using hc
    rw [if_pos hc, if_neg hno, flagsOf_pteBits]
  · have hyes : ((flagsOf w).write && !(flagsOf w).shared) = true := by
      rw [hW, hL] at hc
      simpa [flagsOf] using hc
    have hC : HasFlag PTE_COW PTE_COW ∧ ¬ HasFlag PTE_COW PTE_W ∧
        ¬ HasFlag PTE_COW PTE_LIBRARY := by
      decide
    have hW' : ¬ HasFlag (pteBits w &&& ~~~PTE_W) PTE_W := not_hasFlag_and (by decide)
    have hL' : HasFlag (pteBits w &&& ~~~PTE_W) PTE_LIBRARY ↔ HasFlag w PTE_LIBRARY :=
      (hasFlag_and_of (by decide)).trans hL
    rw [if_neg hc, if_pos hyes]
    simp [flagsOf, hC, hW', hL']

/-- … which maps the page again where the flags are other ones. -/
lemma duppage_again : (Fork.duppage (pteBits w)).2 = true ↔
    HasFlag w PTE_W ∧ ¬ HasFlag w PTE_LIBRARY := by
  have hW : HasFlag (pteBits w) PTE_W ↔ HasFlag w PTE_W := hasFlag_pteBits (by decide)
  have hL : HasFlag (pteBits w) PTE_LIBRARY ↔ HasFlag w PTE_LIBRARY := hasFlag_pteBits (by decide)
  rw [Fork.duppage, ← hW, ← hL]
  split_ifs with hc
  · simp only [false_iff]
    tauto
  · simp only [true_iff]
    tauto

/-! ## The view -/

lemma view_entry (hp : p ∈ x.members) (hv : IsPage v) (hs : ¬ x.Sending p v) :
    x.view.entry p v = (x.k.pageEntry p v).map fun w => (pteFrame w, flagsOf w) :=
    if_pos ⟨hp, hv, hs⟩

lemma view_entry_none (h : ¬ (p ∈ x.members ∧ IsPage v ∧ ¬ x.Sending p v)) :
    x.view.entry p v = none :=
  if_neg h

lemma of_view_entry {a : Flags} (h : x.view.entry p v = some (f, a)) :
    p ∈ x.members ∧ IsPage v ∧ ¬ x.Sending p v ∧
      ∃ w, x.k.pageEntry p v = some w ∧ pteFrame w = f ∧ flagsOf w = a := by
  by_cases hc : p ∈ x.members ∧ IsPage v ∧ ¬ x.Sending p v
  · rw [view_entry hc.1 hc.2.1 hc.2.2] at h
    obtain ⟨w, hw, heq⟩ := Option.map_eq_some_iff.mp h
    cases heq
    exact ⟨hc.1, hc.2.1, hc.2.2, w, hw, rfl, rfl⟩
  · rw [view_entry_none hc] at h
    cases h

/-- What is seen is mapped. -/
lemma maps_of_view (h : Pages x.k x.members) {a : Flags} (hv : x.view.entry p v = some (f, a)) :
    x.k.Maps f := by
  obtain ⟨hp, hpage, -, w, hw, hf, -⟩ := of_view_entry hv
  exact ⟨p, _, w, h.live p hp, isOwnVa_page hpage, hw, hf⟩

lemma keeps_of_maps (h : Pages x.k x.members)
    (hmem : ∀ f, x.k.Maps f → x'.k.pm.mem f = x.k.pm.mem f) :
    x.view.Keeps x'.view := by
  intro q u g a hv
  change pageOf _ = pageOf _
  rw [hmem g (maps_of_view h hv)]

lemma sending_congr (hforks : x'.forks = x.forks) (hid : (x'.k.envs q).envId = (x.k.envs q).envId) :
    x'.Sending q v ↔ x.Sending q v := by rw [State.Sending, State.Sending, hforks, hid]

lemma view_entry_congr (hmem : q ∈ x'.members ↔ q ∈ x.members)
    (hs : q ∈ x.members → IsPage v → (x'.Sending q v ↔ x.Sending q v))
    (he : q ∈ x.members → IsPage v → ¬ x.Sending q v → x'.k.pageEntry q v = x.k.pageEntry q v) :
    x'.view.entry q v = x.view.entry q v := by
  by_cases hc : q ∈ x.members ∧ IsPage v ∧ ¬ x.Sending q v
  · obtain ⟨hq, hv, hn⟩ := hc
    rw [view_entry hq hv hn, view_entry (hmem.mpr hq) hv (mt (hs hq hv).mp hn), he hq hv hn]
  · rw [view_entry_none hc, view_entry_none]
    rintro ⟨hq, hv, hn⟩
    exact hc ⟨hmem.mp hq, hv, mt (hs (hmem.mp hq) hv).mpr hn⟩

/-! ## One entry -/

/-- The page that an entry is to name is free, or one of the processes has it, for the same purpose.
-/
def Comes (k : Kernel) (S : Set ℕ) (w : Word) : Prop :=
  pteFrame w ∈ k.pm.pageFreeList ∨ ∃ q va w₀, q ∈ S ∧ IsPage (VPN va).toNat ∧
    k.entry q va = some w₀ ∧ pteFrame w₀ = pteFrame w ∧
    (HasFlag w PTE_LIBRARY ↔ HasFlag w₀ PTE_LIBRARY)

lemma pageEntry_remapped (hset : k.Remapped k' e va o) (hq : k.Live q) (hv : IsPage v) :
    k'.pageEntry q v = if q = e ∧ v = (VPN va).toNat then o else k.pageEntry q v := by
  have hiff : VPN (BitVec.ofNat 32 v <<< 12) = VPN va ↔ v = (VPN va).toNat := by
    rw [← BitVec.toNat_inj, VPN_pageVa hv]
  have hentry := hset.entry q _ hq (isOwnVa_page hv)
  simp only [hiff] at hentry
  exact hentry

section

variable (hk : KInv T k) (hgap : T.gap = true)
include hk hgap

/-- A page that is mapped is not free. -/
lemma not_free_of_entry (hq : k.Live q) (hva : IsOwnVa va) (hw : k.entry q va = some w) :
    pteFrame w ∉ k.pm.pageFreeList :=
  Kernel.Maps.notMem_free hk hgap ⟨q, va, w, hq, hva, hw, rfl⟩

/-- **One entry is set**, for a page of a process. -/
lemma Pages.remapped (h : Pages k S) (hset : k.Remapped k' e va o) (he : e ∈ S)
    (hva : IsPage (VPN va).toNat) (ho : ∀ w, o = some w → Comes k S w) : Pages k' S := by
  have hlive : ∀ {q}, k'.Live q → k.Live q := fun hq => hset.live_iff.mp hq
  -- an entry is the new one, or an old one
  have hcase : ∀ q y w, k'.Live q → IsOwnVa y → k'.entry q y = some w →
      (q = e ∧ VPN y = VPN va ∧ o = some w) ∨
      (¬ (q = e ∧ VPN y = VPN va) ∧ k.entry q y = some w) := by
    intro q y w hq hy hw
    rw [hset.entry q y (hlive hq) hy] at hw
    split_ifs at hw with hc
    · exact .inl ⟨hc.1, hc.2, hw⟩
    · exact .inr ⟨hc, hw⟩
  refine ⟨fun p hp => hset.live_iff.mpr (h.live p hp), fun p hp y hlo hhi => ?_, fun p hp => ?_,
    fun p hp wx hwx q y w hq hy hw hf => ?_, fun p hp y w hy hw hlib q y' w' hq hy' hw' hf => ?_⟩
  · rw [hset.entry_of_ne (h.live p hp) (isOwnVa_window hlo hhi) fun hc => hva.ne_window hlo hc.2]
    exact h.window p hp y hlo hhi
  · rw [hset.entry_of_ne (h.live p hp) (isOwnVa_of_lt (by decide)) fun hc => hva.ne_UCOW hc.2]
    exact h.scratch p hp
  · rw [hset.entry_of_ne (h.live p hp) isOwnVa_XSTACK fun hc => hva.ne_XSTACK hc.2] at hwx
    rcases hcase q y w hq hy hw with ⟨-, -, hnew⟩ | ⟨-, hold⟩
    · rcases ho w hnew with hfree | ⟨q₀, va₀, w₀, hq₀, hpage, hw₀, hf₀, -⟩
      · rw [hf] at hfree
        exact absurd hfree (not_free_of_entry hk hgap (h.live p hp) isOwnVa_XSTACK hwx)
      · have hsole := h.xstack p hp wx hwx q₀ va₀ w₀
          (h.live q₀ hq₀) hpage.isOwnVa hw₀ (hf₀.trans hf)
        exact absurd hsole.2.symm hpage.ne_XSTACK
    · exact h.xstack p hp wx hwx q y w (hlive hq) hy hold hf
  · have hnew' : q = e ∧ VPN y' = VPN va → q ∈ S ∧ IsPage (VPN y').toNat :=
      fun hc => ⟨hc.1 ▸ he, hc.2 ▸ hva⟩
    rcases hcase q y' w' hq hy' hw' with ⟨hq', hy'', -⟩ | ⟨-, hold'⟩
    · exact hnew' ⟨hq', hy''⟩
    · rcases hcase p y w (hset.live_iff.mpr (h.live p hp)) hy.isOwnVa hw with
        ⟨-, -, hnew⟩ | ⟨-, hold⟩
      · rcases ho w hnew with hfree | ⟨q₀, va₀, w₀, hq₀, hpage, hw₀, hf₀, hlib₀⟩
        · rw [← hf] at hfree
          exact absurd hfree (not_free_of_entry hk hgap (hlive hq) hy' hold')
        · exact h.own q₀ hq₀ va₀ w₀ hpage hw₀ (mt hlib₀.mpr hlib) q y' w' (hlive hq) hy' hold'
            (hf.trans hf₀.symm)
      · exact h.own p hp y w hy hold hlib q y' w' (hlive hq) hy' hold' hf

/-- The pages that are mapped keep their contents. -/
lemma mem_of_remapped (hset : k.Remapped k' e va o) (f : ℕ) (hf : k.Maps f) :
    k'.pm.mem f = k.pm.mem f :=
  hset.mem f (Kernel.Maps.not_isTable hk hgap hf) (Kernel.Maps.notMem_free hk hgap hf)

end

variable (x') in
/-- The view after one entry has been set. -/
lemma view_sets (h : Pages x.k x.members) (hset : x.k.Remapped x'.k e va o) (he : e ∈ x.members)
    (hva : IsPage (VPN va).toNat) (hmembers : x'.members = x.members) (hforks : x'.forks = x.forks)
    (hs : ¬ x.Sending e (VPN va).toNat) :
    x.view.Sets x'.view e (VPN va).toNat (o.map fun w => (pteFrame w, flagsOf w)) := by
  have hsend : ∀ q v, x'.Sending q v ↔ x.Sending q v := fun q v =>
    sending_congr hforks (by rw [hset.envs_eq])
  refine ⟨?_, fun q v hqv => view_entry_congr (by rw [hmembers]) (fun _ _ => hsend q v)
    fun hq hv _ => ?_⟩
  · rw [view_entry (hmembers ▸ he) hva (mt (hsend _ _).mp hs),
      pageEntry_remapped hset (h.live e he) hva, if_pos ⟨rfl, rfl⟩]
  · rw [pageEntry_remapped hset (h.live q hq) hv, if_neg hqv]

/-- A page that is free is not seen. -/
lemma fresh_of_free (hk : KInv T x.k) (hgap : T.gap = true) (h : Pages x.k x.members)
    (hf : f ∈ x.k.pm.pageFreeList) : x.view.Fresh f := by
  rintro q u g a hv rfl
  exact Kernel.Maps.notMem_free hk hgap (maps_of_view h hv) hf

end

end Relatives

end MosRv
