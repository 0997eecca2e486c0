import MosRv.Isolation
import MosRv.User.Cow

/-!
# The calls of user code

A system call is an event of the machine, in which the running env traps and the kernel comes back
to it (`Kernel.Calls`).  Here is what has happened when a mapping call has returned 0, or
`sys_exofork` has not failed: one entry is another one (`Kernel.Remapped`), or there is one more
env.  A demand fault is like a call of `sys_mem_alloc`.
-/

namespace MosRv

open Prog

section

variable {mc : Machine} {T : Template} {k k' : Kernel} {p e f : ℕ}
    {envid srcid dstid va srcva dstva y
  perm w : Word} {tf : Trapframe} {call : Syscall}

/-- A trap that comes back is a call. -/
lemma Kernel.Calls.of_trap (hcur : k.curenv = some p) (hadm : call.Admissible k)
    (hrun : trap call.frame k = .ok () k') : k.Calls call (k'.ktf.regs 10) k' :=
  ⟨_, Syscall.frame_calls call, fun _ hcall => hcall.unique (Syscall.frame_calls call) ▸ hadm,
    ⟨.inl (by simp [hcur]), .inl hrun⟩, rfl⟩

/-! ## The mapping calls -/

/-- What a call does that returns 0. -/
lemma Kernel.Calls.done {Q : Kernel → Prop} (h : k.Calls call 0#32 k')
    (hwp : ∀ tf : Trapframe, wp call.run (k.entering tf) (fun r k₁ => r = 0#32 → Q (k₁.returning r))
      (fun x _ => ∃ err, x = .code err) fun _ => True) : Q k' := by
  obtain ⟨k₁, rfl, hQ⟩ := Fork.calls_of_wp (Q := fun r k₁ => r = 0#32 →
    Q (k₁.returning r)) h fun tf =>
    (hwp tf).mono (fun _ _ hq => hq)
      (fun x k₁ ⟨err, hx⟩ => ⟨err, hx, fun hc => absurd hc (neg_toWord_ne_zero err)⟩) fun _ hp => hp
  exact hQ rfl

section

variable (hk : KInv T k) (hgap : T.gap = true)
include hk hgap

/-- **`sys_mem_map`** maps the page at `srcva` once more. -/
lemma Kernel.Calls.memMap (h : k.Calls (.memMap srcid srcva dstid dstva perm) 0#32 k') :
    ∃ e e' w, k.Resolves srcid true e ∧ k.Resolves dstid true e' ∧ isIllegalVa srcva = false ∧
      isIllegalVa dstva = false ∧ k.entry e srcva = some w ∧
      k.Remapped k' e' dstva
      (some (insertedWord (k.entry e' dstva) (pteFrame w) (perm ||| PTE_U))) := by
  apply h.done
  intro tf
  have hk₁ : KInv T (k.entering tf) := hk.of_eq rfl rfl rfl rfl rfl rfl
  have hres : wp (sysMemMap srcid srcva dstid dstva perm) (k.entering tf) (fun _ _ =>
      isIllegalVa srcva = false ∧ isIllegalVa dstva = false ∧
      ∃ e e', (k.entering tf).Resolves srcid true e ∧ (k.entering tf).Resolves dstid true e')
      (fun _ _ => True) fun _ => True := by
    rw [sysMemMap, wp_ite, wp_exit]
    refine ⟨fun _ => trivial, fun hva => ?_⟩
    rw [not_or] at hva
    exact wp_envid2env_bind trivial fun e he => wp_envid2env_bind trivial fun e' he' =>
      wp_of ⟨Bool.eq_false_iff.mpr hva.1, Bool.eq_false_iff.mpr hva.2, e, e', he, he'⟩
  refine ((hk₁.wp_sysMemMap_cases _ _ _ _ _).and hres).mono ?_
    (fun _ _ hq => hq.1.1) fun _ _ => trivial
  rintro - k₁ ⟨⟨-, hdst, e, e', pp, m, hid, hpp, -, hid', hd', hcase, rfl⟩, hsrc, hdst',
    e₁, e₁', he, he'⟩ -
  obtain rfl := Option.some.inj (hid.symm.trans he.envOf_eq)
  obtain rfl := Option.some.inj (hid'.symm.trans he'.envOf_eq)
  obtain ⟨w, hw, rfl⟩ := Option.map_eq_some_iff.mp hpp
  have hlive' : k.Live e' := (dirs_eq_some.mp hd').1
  exact ⟨e, e', w, he.of_setKtf, he'.of_setKtf, hsrc, hdst', hw,
    remapped_insert hk hgap hlive' (isOwnVa_of_lt hdst) _ hcase⟩

/-- **`sys_mem_map(0, va, 0, va, perm)`** gives a page other permissions, and does not fail. -/
lemma Kernel.Calls.memMap_self {r : Word} (hcur : k.curenv = some p) (hva : isIllegalVa va = false)
    (hperm : perm < 0x400#32) (hw : k.entry p va = some w)
    (h : k.Calls (.memMap 0#32 va 0#32 va perm) r k') :
    k.Remapped k' p va (some (insertedWord (some w) (pteFrame w) (perm ||| PTE_U))) := by
  obtain ⟨tf, hcall, hadm, ⟨-, hstep⟩, -⟩ := h
  have hself : k.Resolves 0#32 true p := .self rfl hcur
  have hmapped : (Syscall.memMap 0#32 va 0#32 va perm).mapped k = some (pteFrame w, perm) := by
    have hw' : k.pm.entryAt (k.envs p).envPgdir va = some w := hw
    simp [Syscall.mapped, hself.envOf_eq, Kernel.pageAt, hw']
  obtain ⟨k₁, hrun, -, hset, -⟩ := trap_memMap hk hgap hcur hva hva hperm hw
    (hadm _ hcall _ _ hmapped).2 hself (Kernel.live_of_cur hk hcur)
      (.inr (hasFlag_pde_of_entry hw)) hcall
  rw [hw] at hset
  rcases hstep with hok | hexit
  · have hrun' : trap tf k = .ok () k' := hok
    rw [hrun] at hrun'
    cases hrun'
    exact hset
  · have hrun' : trap tf k = .exit .popTf k' := hexit
    rw [hrun] at hrun'
    cases hrun'

/-- **`sys_mem_alloc`** maps a page that was free, and is zero. -/
lemma Kernel.Calls.memAlloc (h : k.Calls (.memAlloc envid va perm) 0#32 k') :
    ∃ e pp, k.Resolves envid true e ∧ va < UTOP ∧ pp ∈ k.pm.pageFreeList ∧
      k.Remapped k' e va (some (insertedWord (k.entry e va) pp (perm ||| PTE_U))) ∧
      ∀ i, k'.pm.mem pp i = 0#32 := by
  apply h.done
  intro tf
  have hk₁ : KInv T (k.entering tf) := hk.of_eq rfl rfl rfl rfl rfl rfl
  have hres : wp (sysMemAlloc envid va perm) (k.entering tf)
      (fun _ _ => ∃ e, (k.entering tf).Resolves envid true e) (fun _ _ => True) fun _ => True := by
    rw [sysMemAlloc, wp_ite, wp_exit]
    exact ⟨fun _ => trivial, fun _ => wp_resolves⟩
  refine ((hk₁.wp_sysMemAlloc_cases _ _ _).and hres).mono ?_
    (fun _ _ hq => hq.1.1) fun _ _ => trivial
  rintro r k₁ ⟨⟨-, hva, e, pp, rest, m, hd, hid, hf, hcase, rfl⟩, e₁, he⟩ -
  obtain rfl := Option.some.inj (hid.symm.trans he.envOf_eq)
  have hlive : k.Live e := (dirs_eq_some.mp hd).1
  obtain ⟨hset, hzero⟩ := remapped_fresh hk hgap hlive (isOwnVa_of_lt hva)
    ((k.entering tf).ktf.setReg 10 r) hf hcase
  have hmem : pp ∈ k.pm.pageFreeList := by
    rw [show k.pm.pageFreeList = pp :: rest from hf]
    exact List.mem_cons_self
  exact ⟨e, pp, he.of_setKtf, hva, hmem, hset, hzero⟩

/-- **`sys_mem_unmap`** clears the entry. -/
lemma Kernel.Calls.memUnmap (hinv : EnvInv k) (h : k.Calls (.memUnmap envid va) 0#32 k') :
    ∃ e, k.Resolves envid true e ∧ va < UTOP ∧ k.Remapped k' e va none := by
  apply h.done
  intro tf
  have hk₁ : KInv T (k.entering tf) := hk.of_eq rfl rfl rfl rfl rfl rfl
  rw [Syscall.run, sysMemUnmap, wp_ite, wp_exit]
  refine ⟨fun _ => ⟨_, rfl⟩, fun hva => wp_envid2env_bind ⟨_, rfl⟩ fun e he => ?_⟩
  have hlt := isIllegalVa_eq_false hva
  have hlive : k.Live e := hinv.live_of_resolves he.of_setKtf
  rw [wp_bind, wp_get, wp_bind, wp_liftPm]
  refine (hk₁.pages.wp_pageRemove _ hlive.dirs (own_of_lt_UTOP hlt)).mono ?_ (fun _ _ hf => hf.elim)
    fun _ _ => trivial
  rintro - m ⟨hcase, -⟩ -
  exact ⟨e, he.of_setKtf, hlt, (remapped_remove hk hgap hlive (isOwnVa_of_lt hlt) _ hcase).1⟩

omit hgap in
/-- **A store** of the running env is made to a page it may store to. -/
lemma Step.store {b : BitVec 8} (hcur : k.curenv = some p) (h : Step k (.store va b) k') :
    ∃ w g, k.entry p va = some w ∧ HasFlag w PTE_W ∧ k' = k.withPage (pteFrame w) g ∧
      ∀ x, pageByte g x =
        if x = va.toNat % 4096 then b else pageByte (k.pm.mem (pteFrame w)) x := by
  obtain ⟨⟨-, hlt, d, w, hd, hw, hW, hU⟩, hrun⟩ := h
  obtain rfl := Option.some.inj ((Kernel.curPgdir_of_cur hk hcur).symm.trans hd)
  have hprog : wp (Event.store va b).prog k (fun _ k' =>
      k' = { k with pm := k.pm.setByte (pteFrame w) (va.toNat % 4096) b }) (fun _ _ => False)
      fun _ => True := by
    rw [Event.prog, wp_bind, wp_getCurPgdir]
    refine ⟨fun d hd' => ?_, fun _ => trivial⟩
    obtain rfl := Option.some.inj (hd.symm.trans hd')
    rw [wp_bind, wp_get, hw]
    dsimp only
    rw [wp_liftPm, wp_modify]
  rcases hrun with hok | hexit
  · exact ⟨w, _, hw, hW, (hprog.of_ok hok).trans (setByte_eq_withPage k (pteFrame w) _ b),
      fun x => frameByte_setByte k.pm (pteFrame w) (va.toNat % 4096) x b⟩
  · exact (hprog.of_exit hexit).elim

omit hgap in
/-- A store to a page of one's own that may be stored to goes through. -/
lemma exists_store {b : BitVec 8} (hcur : k.curenv = some p) (hlt : va < ULIM)
    (hw : k.entry p va = some w)
    (hW : HasFlag w PTE_W) (hU : HasFlag w PTE_U) : ∃ k', Step k (.store va b) k' := by
  have hdir := Kernel.curPgdir_of_cur hk hcur
  have hprog : wp (Event.store va b).prog k (fun _ _ => True)
      (fun _ _ => False) fun _ => False := by
    rw [Event.prog, wp_bind, wp_getCurPgdir]
    refine ⟨fun d hd => ?_, fun hno => absurd (hdir.symm.trans hno) (by simp)⟩
    obtain rfl := Option.some.inj (hdir.symm.trans hd)
    rw [wp_bind, wp_get, show k.pm.entryAt _ va = some w from hw]
    trivial
  obtain ⟨_, k', hrun, -⟩ := hprog.exists_ok
  exact ⟨k', ⟨by simp [hcur], hlt, _, w, hdir, hw, hW, hU⟩, .inl hrun⟩

/-- **A demand fault** maps a page that was free, and is zero. -/
lemma Step.demand (hcur : k.curenv = some p)
    (hcause : tf.cause = CAUSE_FAULT_LOAD ∨ tf.cause = CAUSE_FAULT_STORE) (hva : tf.badvaddr < UVPT)
    (hno : k.entry p tf.badvaddr = none) (h : Step k (.trap tf) k') :
    ∃ pp, pp ∈ k.pm.pageFreeList ∧
      k.Remapped k' p tf.badvaddr (some (insertedWord none pp (PTE_W ||| PTE_U))) ∧
      ∀ i, k'.pm.mem pp i = 0#32 := by
  have hk₁ : KInv T { k with ktf := tf } := hk.of_eq rfl rfl rfl rfl rfl rfl
  have hrefill : wp normalPageFault { k with ktf := tf } (fun _ k' => ∃ pp, pp ∈ k.pm.pageFreeList ∧
      k.Remapped k' p tf.badvaddr (some (insertedWord none pp (PTE_W ||| PTE_U))) ∧
      ∀ i, k'.pm.mem pp i = 0#32) (fun _ _ => False) fun _ => True := by
    rw [normalPageFault, wp_bind, wp_get]
    refine (wp_doTlbRefill_cases hk₁ hgap hcur _ _).mono ?_ (fun _ _ h => h) fun _ h => h
    rintro - k₁ (⟨-, hsome⟩ | ⟨pp, m, hmem, hva', rfl, hset, hzero⟩)
    · exact absurd hno hsome
    · rw [show Kernel.entry { k with ktf := tf } p tf.badvaddr = none from hno] at hset
      obtain ⟨⟨m', tf', heq⟩, hentry, hmem', htable⟩ := hset
      exact ⟨pp, hmem, ⟨⟨m', tf', heq⟩, hentry, hmem', htable⟩, hzero⟩
  have hronly : k.pm.readOnlyAt (k.envs p).envPgdir tf.badvaddr = false := by
    rw [Pmap.readOnlyAt, show k.pm.entryAt (k.envs p).envPgdir tf.badvaddr = none from hno]
  have hdir := Kernel.curPgdir_of_cur hk hcur
  have hwp : wp (trap tf) k (fun _ k' => ∃ pp, pp ∈ k.pm.pageFreeList ∧
      k.Remapped k' p tf.badvaddr (some (insertedWord none pp (PTE_W ||| PTE_U))) ∧
      ∀ i, k'.pm.mem pp i = 0#32) (fun _ _ => False) fun _ => True := by
    have hlow : ¬ (0x80000000#32 ≤ tf.cause) := by rcases hcause with h | h <;> rw [h] <;> decide
    rw [trap, wp_bind, wp_modify, trapsDispatch, wp_bind, wp_get, if_neg hlow, exceptionHandler,
      wp_bind, wp_get]
    dsimp only
    rcases hcause with hload | hstore
    · have hnot : ¬ (UVPT ≤ tf.badvaddr ∧ tf.badvaddr < ULIM) :=
        fun hc => absurd hva (BitVec.not_lt.mpr hc.1)
      rw [hload, if_neg (by decide), if_neg (by decide), if_pos rfl, if_neg hnot]
      exact hrefill
    · rw [hstore, if_neg (by decide), if_neg (by decide), if_neg (by decide), if_pos rfl, wp_bind,
        wp_getCurPgdir]
      refine ⟨fun d hd => ?_, fun _ => trivial⟩
      obtain rfl := Option.some.inj (hdir.symm.trans hd)
      rw [hronly, if_neg (by decide)]
      exact hrefill
  obtain ⟨-, hok | hexit⟩ := h
  · exact hwp.of_ok hok
  · exact (hwp.of_exit hexit).elim

end

/-- `schedule`, once the env is gone. -/
lemma Kernel.Ended.scheduled {k₁ : Kernel} {yield : Bool} (h : k.Ended p k₁)
    (hs : { k₁ with curenv := none }.Scheduled yield k') : k.Ended p k' := by
  have hrunning : ∀ (k₂ : Kernel) (e : ℕ), k₂.envs = k₁.envs → k₂.curenv = none → k₂.pm = k₁.pm →
      k.Ended p (k₂.running e) := by
    intro k₂ e henvs hcur hpm
    have hruns : ∀ x, ∃ r, (k₂.running e).envs x = { k₁.envs x with envRuns := r } := by
      intro x
      by_cases hx : x = e
      · subst hx
        exact ⟨(k₁.envs x).envRuns + 1#32, by simp [Kernel.running, hcur, henvs]⟩
      · exact ⟨(k₁.envs x).envRuns, by simp [Kernel.running, hcur, henvs, hx]⟩
    refine ⟨?_, fun x hx => ?_, fun x hx hl va hva => ?_, fun f hf => ?_⟩
    · obtain ⟨r, hr⟩ := hruns p
      rw [Kernel.Live, hr]
      exact h.gone
    · obtain ⟨r, hr⟩ := hruns x
      obtain ⟨r', hr'⟩ := h.env x hx
      exact ⟨r, by rw [hr, hr']⟩
    · obtain ⟨r, hr⟩ := hruns x
      rw [← h.entry x hx hl va hva, Kernel.entry, Kernel.entry, hr]
      exact congrArg (fun m : Pmap => m.entryAt _ va) hpm
    · rw [← h.mem f hf]
      exact congrArg (fun m : Pmap => m.mem f) hpm
  cases hs with
  | stay _ _ hcur _ => cases hcur
  | pick _ _ _ _ => exact hrunning _ _ rfl rfl rfl

/-- **`sys_env_destroy(0)`** ends the running env. -/
lemma Step.destroySelf (hk : KInv T k) (hgap : T.gap = true) (hcur : k.curenv = some p)
    (hcall : tf.Calls (.envDestroy 0#32)) (h : Step k (.trap tf) k') : k.Ended p k' := by
  have hk₁ : KInv T (k.entering tf) := hk.of_eq rfl rfl rfl rfl rfl rfl
  have hself : (k.entering tf).Resolves 0#32 true p := .self rfl hcur
  have hwp : wp (trap tf) k (fun _ _ => False) (fun _ k' => k.Ended p k') fun _ => True := by
    rw [wp_trap_call hcall, Syscall.run, sysEnvDestroy, hself.wp, wp_bind, envDestroy, wp_bind]
    refine ((wp_envFree_ended hk₁ hgap (Kernel.live_of_cur hk₁ hcur)).and
      (wp_envFree_acts _ p)).mono ?_ (fun _ _ h => h.2.elim) fun _ _ => trivial
    rintro - k₁ ⟨⟨hend, hcur₁⟩, -⟩
    have hend' : k.Ended p k₁ := ⟨hend.gone, hend.env, hend.entry, hend.mem⟩
    rw [wp_bind, wp_get, if_pos (hcur₁.trans hcur), wp_bind, wp_modify]
    refine wp_schedule_scheduled.mono (fun _ _ hf => hf.elim) ?_ fun _ h => h
    rintro - k₂ ⟨rfl, hs⟩
    exact hend'.scheduled hs
  obtain ⟨-, hok | hexit⟩ := h
  · exact (hwp.of_ok hok).elim
  · exact hwp.of_exit hexit

/-- `sys_exofork` can be called where it does not fail. -/
lemma Kernel.exists_exofork (hcur : k.curenv = some p) (hok : ¬ Fork.ForkFails k) :
    ∃ c rest k', k.envFreeList = c :: rest ∧ k.Calls .exofork (k.nextId c) k' := by
  simp only [Fork.ForkFails, not_or, not_not] at hok
  obtain ⟨hl, hf, hasid⟩ := hok
  obtain ⟨c, rest, hl⟩ := List.exists_cons_of_ne_nil hl
  obtain ⟨pp, prest, hf⟩ := List.exists_cons_of_ne_nil hf
  obtain ⟨i, hi⟩ := Option.ne_none_iff_exists'.mp hasid
  have hrun := run_sysExofork (k := k.entering Syscall.exofork.frame) hcur hl hf hi
  exact ⟨c, rest, _, hl, _, Syscall.frame_calls _, admissible_exofork k,
    step_call_ok (by simp [hcur]) (Syscall.frame_calls _) hrun, Fork.returning_reg _ _⟩

/-- **`sys_exofork`**, if it does not fail, makes an env of one that was free, with a page directory
that was a free page. -/
lemma Kernel.Calls.exofork {r : Word} (hcur : k.curenv = some p) (hok : ¬ Fork.ForkFails k)
    (h : k.Calls .exofork r k') : ∃ c rest pp prest v, k.envFreeList = c :: rest ∧
      k.pm.pageFreeList = pp :: prest ∧ k'.pm = k.setupVm pp prest ∧ k'.curenv = k.curenv ∧
      k'.envs = Function.update k.envs c v ∧ v.envPgdir = pp ∧ v.envId = r ∧
      v.envParentId = (k.envs p).envId ∧ v.envStatus ≠ .free := by
  simp only [Fork.ForkFails, not_or, not_not] at hok
  obtain ⟨hl, hf, hasid⟩ := hok
  obtain ⟨c, rest, hl⟩ := List.exists_cons_of_ne_nil hl
  obtain ⟨pp, prest, hf⟩ := List.exists_cons_of_ne_nil hf
  obtain ⟨i, hi⟩ := Option.ne_none_iff_exists'.mp hasid
  refine ⟨c, rest, pp, prest, k'.envs c, hl, hf, ?_⟩
  obtain ⟨k₁, rfl, hQ⟩ := Fork.calls_of_wp (Q := fun r k₁ => k₁.pm = k.setupVm pp prest ∧
      k₁.curenv = k.curenv ∧ k₁.envs = Function.update k.envs c (k₁.envs c) ∧
      (k₁.envs c).envPgdir = pp ∧ (k₁.envs c).envId = r ∧
      (k₁.envs c).envParentId = (k.envs p).envId ∧ (k₁.envs c).envStatus ≠ .free) h fun tf => by
    rw [Syscall.run, sysExofork, wp_bind, wp_getCurenv]
    refine ⟨fun p' hp' => ?_, fun _ => trivial⟩
    obtain rfl := Option.some.inj (hcur.symm.trans hp')
    rw [wp_bind, wp_get, wp_bind, wp_envAlloc, show (k.entering tf).envFreeList = c :: rest from hl,
      show (k.entering tf).pm.pageFreeList = pp :: prest from hf]
    simp only [show ((List.range NASID).find? fun i => !asidUsed (k.entering tf).asidBitmap i) =
      some i from hi, wp_bind, wp_get, wp_modifyEnv, wp_pure, Function.update_self,
      Function.update_idem, Kernel.allocated]
    exact ⟨rfl, rfl, rfl, trivial, trivial, rfl, by decide⟩
  exact hQ

end

end MosRv
