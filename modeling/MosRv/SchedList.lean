import MosRv.EnvInv
import MosRv.Sends

/-!
# The list of the runnable environments

`env_sched_list` is to hold exactly the environments whose status is `ENV_RUNNABLE` (the comment at
its declaration in `kern/env.c` says so).  Six functions keep it, and three of them update it
without looking: `env_free` unlinks an environment whatever its status, `sys_ipc_recv` unlinks the
current one, and `sys_ipc_try_send` links its target because that one is waiting.  `Syscall.Misuses`
are the calls that these three get wrong: the destruction of an environment that is not runnable, a
receive by an environment that has made itself not runnable, and a send to a receiver that its
parent has woken.

In a run without such a call the list is what it is to be in every state, and no macro is ever used
on an environment on the wrong side of the list (`sched_list_invariant`).  The machine that checks
this for each use of a macro (`Kernel.audit`) does not get past any of these calls, so there is no
weaker condition.
-/

namespace MosRv

open Prog Reach

/-- **`env_sched_list` is well formed, and it is the list of the runnable environments.** -/
def Kernel.SchedOk (k : Kernel) : Prop :=
  ∃ as, TailQueue.Rep k.envSchedList as ∧ ∀ e, e ∈ as ↔ (k.envs e).envStatus = .runnable

/-- **The call uses a list macro on an environment that is on the wrong side of the list.** -/
inductive Syscall.Misuses (k : Kernel) : Syscall → Prop
  | destroy {envid : Word} {e : ℕ} (he : k.Resolves envid true e)
      (hstatus : (k.envs e).envStatus ≠ .runnable) : Misuses k (.envDestroy envid)
  | recv {dstva : Word} {c : ℕ} (hwaits : (Syscall.ipcRecv dstva).Waits) (hcur : k.curenv = some c)
      (hstatus : (k.envs c).envStatus ≠ .runnable) : Misuses k (.ipcRecv dstva)
  | send {envid value srcva perm : Word} {e : ℕ} (hsrc : srcva = 0#32 ∨ isIllegalVa srcva = false)
      (he : k.Resolves envid false e) (hrecv : (k.envs e).envIpcRecving ≠ 0#32)
      (hstatus : (k.envs e).envStatus = .runnable) : Misuses k (.ipcTrySend envid value srcva perm)

def Event.Misuses (k : Kernel) : Event → Prop
  | .trap tf => ∃ call, tf.Calls call ∧ call.Misuses k
  | _ => False

/-- The panic is not one of a list macro. -/
def Panic.NotList (p : Panic) : Prop := p ≠ .nullLink ∧ p ≠ .listMisuse

instance (p : Panic) : Decidable p.NotList := inferInstanceAs (Decidable (_ ∧ _))

/-! ## The list -/

section

variable {k k' : Kernel} {e : ℕ} {as : List ℕ} {q : TailQueue.Queue ℕ} {yield : Bool}

namespace Kernel.SchedOk

/-- The list and the runnable environments are the same. -/
lemma congr (h : k.SchedOk) (hq : k'.envSchedList = k.envSchedList)
    (hs : ∀ e, (k'.envs e).envStatus = .runnable ↔ (k.envs e).envStatus = .runnable) :
    k'.SchedOk := by
  obtain ⟨as, hrep, hmem⟩ := h
  exact ⟨as, hq ▸ hrep, fun e => (hmem e).trans (hs e).symm⟩

lemma like (h : k.SchedOk) (hk : k.Like k') : k'.SchedOk := by
  obtain ⟨m, dev, rfl⟩ := hk
  exact h.congr rfl fun _ => Iff.rfl

lemma setKtf (h : k.SchedOk) (tf : Trapframe) : { k with ktf := tf }.SchedOk :=
  h.congr rfl fun _ => Iff.rfl

/-- An environment changes, and is runnable as before. -/
lemma update (h : k.SchedOk) {v : Env} (hq : k'.envSchedList = k.envSchedList)
    (henvs : k'.envs = Function.update k.envs e v)
    (hv : v.envStatus = .runnable ↔ (k.envs e).envStatus = .runnable) : k'.SchedOk := by
  refine h.congr hq fun e' => ?_
  rw [henvs]
  by_cases hee : e' = e
  · rw [hee, Function.update_self, hv]
  · rw [Function.update_of_ne hee]

/-- An environment is unlinked, and is no longer runnable. -/
lemma remove (h : k.SchedOk) {v : Env} (he : (k.envs e).envStatus = .runnable)
    (hq : (TailQueue.Op.remove e).apply k.envSchedList = some k'.envSchedList)
    (henvs : k'.envs = Function.update k.envs e v) (hv : v.envStatus ≠ .runnable) : k'.SchedOk := by
  obtain ⟨as, hrep, hmem⟩ := h
  obtain ⟨q, hq', hrep'⟩ := hrep.remove ((hmem e).mpr he)
  obtain rfl := Option.some.inj (hq'.symm.trans hq)
  refine ⟨as.erase e, hrep', fun e' => ?_⟩
  rw [henvs, hrep.nodup.mem_erase_iff]
  by_cases hee : e' = e
  · rw [hee, Function.update_self]
    exact iff_of_false (fun hc => hc.1 rfl) hv
  · rw [Function.update_of_ne hee, ← hmem]
    exact and_iff_right hee

/-- An environment that was not runnable is linked, and is. -/
lemma insert {op : TailQueue.Op ℕ} (h : k.SchedOk) {v : Env} (he : (k.envs e).envStatus ≠ .runnable)
    (hop : op = .insertHead e ∨ op = .insertTail e)
    (hq : op.apply k.envSchedList = some k'.envSchedList)
    (henvs : k'.envs = Function.update k.envs e v) (hv : v.envStatus = .runnable) : k'.SchedOk := by
  obtain ⟨as, hrep, hmem⟩ := h
  have hnot : e ∉ as := fun hin => he ((hmem e).mp hin)
  have hmem' : ∀ e', e' = e ∨ e' ∈ as ↔ (k'.envs e').envStatus = .runnable := by
    intro e'
    rw [henvs]
    by_cases hee : e' = e
    · simp [hee, hv]
    · rw [Function.update_of_ne hee, hmem]
      exact or_iff_right hee
  obtain rfl | rfl := hop
  · have hq' : k.envSchedList.insertHead e = k'.envSchedList := Option.some.inj hq
    exact ⟨e :: as, hq' ▸ hrep.insertHead hnot, fun e' => List.mem_cons.trans (hmem' e')⟩
  · obtain ⟨q, hq', hrep'⟩ := hrep.insertTail hnot
    obtain rfl := Option.some.inj (hq'.symm.trans hq)
    refine ⟨as ++ [e], hrep', fun e' => ?_⟩
    rw [List.mem_append, List.mem_singleton, or_comm]
    exact hmem' e'

/-! ## Proper uses -/

variable (hinv : EnvInv k)
include hinv

/-- The list is not longer than the array. -/
lemma nodes_eq (hrep : TailQueue.Rep k.envSchedList as)
    (hmem : ∀ e, e ∈ as ↔ (k.envs e).envStatus = .runnable) :
    k.envSchedList.nodes (NENV + 1) k.envSchedList.first = as := by
  have hsub : as ⊆ List.range (NENV + 1) := fun e he => by
    have hlive : (k.envs e).envStatus ≠ .free := by
      rw [(hmem e).mp he]
      decide
    exact List.mem_range.mpr (Nat.lt_succ_of_le (hinv.live_id e hlive).1)
  exact hrep.nodes_eq (by simpa using (hrep.nodup.subperm hsub).length_le)

lemma proper_remove (h : k.SchedOk) :
    (TailQueue.Op.remove e).proper (NENV + 1) k.envSchedList = true ↔
    (k.envs e).envStatus = .runnable := by
  obtain ⟨as, hrep, hmem⟩ := h
  rw [TailQueue.Op.proper, decide_eq_true_iff, nodes_eq hinv hrep hmem, hmem]

lemma proper_insert {op : TailQueue.Op ℕ} (h : k.SchedOk)
    (hop : op = .insertHead e ∨ op = .insertTail e) :
    op.proper (NENV + 1) k.envSchedList = true ↔ (k.envs e).envStatus ≠ .runnable := by
  obtain ⟨as, hrep, hmem⟩ := h
  obtain rfl | rfl := hop
  · rw [TailQueue.Op.proper, decide_eq_true_iff, nodes_eq hinv hrep hmem, hmem]
  · rw [TailQueue.Op.proper, decide_eq_true_iff, nodes_eq hinv hrep hmem, hmem]

/-- The macros can be used on `e`. -/
lemma exists_remove (h : k.SchedOk) (he : (k.envs e).envStatus = .runnable) :
    ∃ q, (TailQueue.Op.remove e).proper (NENV + 1) k.envSchedList = true ∧
      (TailQueue.Op.remove e).apply k.envSchedList = some q := by
  obtain ⟨as, hrep, hmem⟩ := id h
  obtain ⟨q, hq, -⟩ := hrep.remove ((hmem e).mpr he)
  exact ⟨q, (h.proper_remove hinv).mpr he, hq⟩

lemma exists_insert {op : TailQueue.Op ℕ} (h : k.SchedOk) (he : (k.envs e).envStatus ≠ .runnable)
    (hop : op = .insertHead e ∨ op = .insertTail e) :
    ∃ q, op.proper (NENV + 1) k.envSchedList = true ∧ op.apply k.envSchedList = some q := by
  have hproper := (h.proper_insert hinv hop).mpr he
  obtain ⟨as, hrep, hmem⟩ := h
  obtain rfl | rfl := hop
  · exact ⟨_, hproper, rfl⟩
  · obtain ⟨q, hq, -⟩ := hrep.insertTail fun hin => he ((hmem e).mp hin)
    exact ⟨q, hproper, hq⟩

/-- The current environment can be moved to the tail. -/
lemma requeued (h : k.SchedOk) : k.CanRequeue ∧
    ∀ q, k.requeued = some q → { k with envSchedList := q }.SchedOk := by
  by_cases hcr : k.curRunnable = true
  · obtain ⟨c, hcur, hrun⟩ := Kernel.curRunnable_eq_true.mp hcr
    obtain ⟨as, hrep, hmem⟩ := id h
    obtain ⟨q₁, h₁, hrep₁⟩ := hrep.remove ((hmem c).mpr hrun)
    have hnot : c ∉ as.erase c := hrep.nodup.not_mem_erase
    obtain ⟨q₂, h₂, hrep₂⟩ := hrep₁.insertTail hnot
    have hlen : as.length ≤ NENV + 1 := by
      have hsub : as ⊆ List.range (NENV + 1) := fun e he => by
        have hlive : (k.envs e).envStatus ≠ .free := by
          rw [(hmem e).mp he]
          decide
        exact List.mem_range.mpr (Nat.lt_succ_of_le (hinv.live_id e hlive).1)
      simpa using (hrep.nodup.subperm hsub).length_le
    refine ⟨fun c' hcur' _ => ?_, fun q hq => ?_⟩
    · obtain rfl := Option.some.inj (hcur.symm.trans hcur')
      refine ⟨q₁, q₂, (h.proper_remove hinv).mpr hrun, h₁, ?_, h₂⟩
      rw [TailQueue.Op.proper, decide_eq_true_iff,
        hrep₁.nodes_eq (le_trans List.length_erase_le hlen)]
      exact hnot
    · rw [Kernel.requeued_runnable hcur hrun, h₁, Option.bind_some] at hq
      obtain rfl := Option.some.inj (h₂.symm.trans hq)
      refine ⟨as.erase c ++ [c], hrep₂, fun e => ?_⟩
      rw [List.mem_append, List.mem_singleton, hrep.nodup.mem_erase_iff, hmem]
      by_cases hec : e = c
      · simp [hec, hrun]
      · simp [hec]
  · refine ⟨fun c hcur hrun => ?_, fun q hq => ?_⟩
    · exact absurd (Kernel.curRunnable_eq_true.mpr ⟨c, hcur, hrun⟩) hcr
    · rw [Kernel.requeued_of_not_curRunnable (by simpa using hcr)] at hq
      obtain rfl := Option.some.inj hq
      exact h

/-- `schedule` keeps the list. -/
lemma scheduled (h : k.SchedOk) (hs : k.Scheduled yield k') : k'.SchedOk := by
  cases hs with
  | @stay c _ _ _ _ =>
      have hsame := running_sameButContext { k with schedCount := k.schedCount - 1#32 } c
      refine h.congr rfl fun e => ?_
      rw [(hsame e).envStatus]
  | @pick q e _ hq _ _ =>
      have hsame := running_sameButContext
        { k with envSchedList := q, schedCount := (k.envs e).envPri - 1#32 } e
      refine ((h.requeued hinv).2 q hq).congr rfl fun e' => ?_
      rw [(hsame e').envStatus]

end Kernel.SchedOk

end

/-! ## Steps -/

/-- The address that a send takes a page from is one that it may name. -/
def Syscall.SendsLegal : Syscall → Prop
  | .ipcTrySend _ _ srcva _ => srcva = 0#32 ∨ isIllegalVa srcva = false
  | _ => True

section

variable {k k' : Kernel} {ev : Event} {call : Syscall} {r : Except Exit Word} {tf : Trapframe}
  {gone : Bool}

namespace Kernel.SchedOk

/-- **A system call that is no misuse keeps the list.** -/
lemma syscall (h : k.SchedOk) (hinv : EnvInv k) (hno : ¬ call.Misuses k)
    (ha : Syscall.Acts k call r k') (hlegal : (∃ w, r = .ok w) → call.SendsLegal) : k'.SchedOk := by
  cases ha with
  | plain _ hk => exact h.like hk
  | failed _ hk => exact h.like hk
  | yield hs => exact h.scheduled hinv hs
  | @destroy envid e m q he hcur hq =>
      have hrun : (k.envs e).envStatus = .runnable := by
        by_contra hoff
        exact hno (.destroy he hoff)
      exact h.remove hrun hq rfl (by simp)
  | @destroySelf envid e m q k' he hcur hq hs =>
      have hrun : (k.envs e).envStatus = .runnable := by
        by_contra hoff
        exact hno (.destroy he hoff)
      have h' : { k.freed e m q with curenv := none }.SchedOk := h.remove hrun hq rfl (by simp)
      have hinv' : EnvInv { k.freed e m q with curenv := none } :=
        hinv.freed (hinv.live_of_resolves he) m q nofun
      exact h'.scheduled hinv' hs
  | setTlbModEntry he => exact h.update rfl rfl Iff.rfl
  | notForked hcur hfree =>
      exact h.update rfl rfl Iff.rfl
  | @forked c e pp i rest prest hcur hfree =>
      have hold : (k.envs e).envStatus = .free := hinv.free_free e (by simp [hfree])
      exact h.update (e := e) rfl (Function.update_idem _ _ _) (by simp [hold])
  | wake he hstatus hq => exact h.insert hstatus (.inr rfl) hq rfl rfl
  | @block envid e q he hstatus hq =>
      have hrun : (k.envs e).envStatus = .runnable := by
        have hlive := hinv.live_of_resolves he
        cases hs : (k.envs e).envStatus with
        | free => exact absurd hs hlive
        | runnable => rfl
        | notRunnable => exact absurd hs hstatus
      exact h.remove hrun hq rfl (by simp)
  | sameStatus => exact h
  | setTrapframeSelf _ _ _ hk => exact (h.like hk).setKtf _
  | setTrapframe _ _ _ hk => exact (h.like hk).update rfl rfl Iff.rfl
  | @sent envid value srcva perm c e q k' he hcur hrecv hq hk =>
      have hsrc := hlegal ⟨_, rfl⟩
      have h' : (k.woken c e value perm q).SchedOk :=
        h.insert (fun hrun => hno (.send hsrc he hrecv hrun)) (.inr rfl) hq rfl rfl
      exact h'.like hk
  | @sentLate envid value srcva perm c e q k' err hsrc _ _ he _ hrecv hq hk =>
      have h' : (k.woken c e value perm q).SchedOk :=
        h.insert (fun hrun => hno (.send (.inr hsrc.2) he hrecv hrun)) (.inr rfl) hq rfl rfl
      exact h'.like hk
  | @received dstva c q k' hwaits hcur hq hs =>
      have hrun : (k.envs c).envStatus = .runnable := by
        by_contra hoff
        exact hno (.recv hwaits hcur hoff)
      have h' : (k.receiving c dstva q).SchedOk := h.remove hrun hq rfl (by simp)
      have hinv' : EnvInv (k.receiving c dstva q) :=
        hinv.update (hinv.cur_live c hcur) rfl (by simp) rfl rfl rfl
      exact h'.scheduled hinv' hs

/-- A trap that makes no call. -/
lemma trap_noCall (h : k.SchedOk) (hinv : EnvInv k) (hno : ∀ call, ¬ tf.Calls call)
    (ha : tf.Acts k gone k') : k'.SchedOk := by
  cases ha with
  | tick _ hs => exact (h.setKtf tf).scheduled (hinv.setKtf tf) hs
  | noCall => exact h.setKtf _
  | call hcall => exact absurd hcall (hno _)
  | callFailed hcall => exact absurd hcall (hno _)
  | callGone hcall => exact absurd hcall (hno _)
  | fault _ hk => exact (h.setKtf tf).like hk
  | queryVpt _ _ _ _ _ hk => exact ((h.setKtf tf).like hk).setKtf _
  | userMod _ hk => exact ((h.setKtf _).like hk).setKtf _

end Kernel.SchedOk

lemma wp_sendsLegal (call : Syscall) :
    wp call.run k (fun _ _ => call.SendsLegal) (fun _ _ => True) fun _ => True := by
  have htrue : ∀ x : KernelM Word, wp x k (fun _ _ => True) (fun _ _ => True) fun _ => True :=
    fun x => (wp_self x k).mono (fun _ _ _ => trivial) (fun _ _ _ => trivial) fun _ _ => trivial
  cases call with
  | ipcTrySend envid value srcva perm =>
      rw [Syscall.run, sysIpcTrySend, wp_ite, wp_exit]
      refine ⟨fun _ => trivial, fun hva => (htrue _).mono (fun _ _ _ => ?_) (fun _ _ h => h)
        fun _ h => h⟩
      by_cases h0 : srcva = 0#32
      · exact .inl h0
      · exact .inr (Bool.eq_false_iff.mpr fun hill => hva ⟨h0, hill⟩)
  | _ => exact htrue _

lemma Kernel.Resolves.of_envs {envid : Word} {checkperm : Bool} {e : ℕ}
    (h : k.Resolves envid checkperm e) (henvs : k'.envs = k.envs) (hcur : k'.curenv = k.curenv) :
    k'.Resolves envid checkperm e := by
  cases h with
  | self h0 hc => exact .self h0 (hcur.trans hc)
  | other h0 hlive hid hperm => exact .other h0 (henvs ▸ hlive) (henvs ▸ hid) (by rwa [henvs, hcur])

/-- A misuse is one because of the environments. -/
lemma Syscall.Misuses.of_envs (h : call.Misuses k) (henvs : k'.envs = k.envs)
    (hcur : k'.curenv = k.curenv) : call.Misuses k' := by
  cases h with
  | destroy he hoff => exact .destroy (he.of_envs henvs hcur) (henvs ▸ hoff)
  | recv hwaits hc hoff => exact .recv hwaits (hcur.trans hc) (henvs ▸ hoff)
  | send hsrc he hrecv hon => exact .send hsrc (he.of_envs henvs hcur) (henvs ▸ hrecv) (henvs ▸ hon)

/-- **A trap that is no misuse keeps the list.** -/
lemma Kernel.SchedOk.wp_trap (h : k.SchedOk) (hinv : EnvInv k)
    (hno : ∀ call, tf.Calls call → ¬ call.Misuses k) :
    wp (trap tf) k (fun _ k' => k'.SchedOk) (fun _ k' => k'.SchedOk) fun _ => True := by
  by_cases hcall : ∃ call, tf.Calls call
  · obtain ⟨call, hcall⟩ := hcall
    rw [wp_trap_call hcall]
    have hok : (k.entering tf).SchedOk := h.setKtf _
    have hinv' : EnvInv (k.entering tf) := hinv.setKtf _
    have hno' : ¬ call.Misuses (k.entering tf) :=
      fun hmis => hno call hcall (hmis.of_envs rfl rfl)
    refine ((Syscall.acts call).and (wp_sendsLegal call)).mono ?_ ?_ fun _ _ => trivial
    · rintro r k₁ ⟨ha, hlegal⟩
      exact (hok.syscall hinv' hno' ha fun _ => hlegal).setKtf _
    · rintro x k₁ ⟨ha, -⟩
      have hk := hok.syscall hinv' hno' ha nofun
      cases x with
      | code err => exact hk.setKtf _
      | popTf => exact hk
  · rw [not_exists] at hcall
    exact (Trapframe.acts k tf).mono (fun _ _ ha => h.trap_noCall hinv hcall ha)
      (fun _ _ ha => h.trap_noCall hinv hcall ha.2) fun _ hp => hp

/-- **A step that is no misuse keeps the list.** -/
lemma Kernel.SchedOk.step (h : k.SchedOk) (hinv : EnvInv k) (hno : ¬ ev.Misuses k)
    (hstep : Step k ev k') : k'.SchedOk := by
  have hacts := hstep.acts
  cases ev with
  | create img priority =>
      cases hacts with
      | @create _ _ e pp i rest prest q _ _ hfree _ _ hq hk =>
          have hold : (k.envs e).envStatus = .free := hinv.free_free e (by simp [hfree])
          have h' : (k.created e rest pp prest i priority img.eEntry k.pm q).SchedOk :=
            h.insert (by simp [hold]) (.inl rfl) hq (Function.update_idem _ _ _)
              (by simp [Kernel.newborn])
          exact h'.like hk
  | trap tf =>
      have hwp := h.wp_trap hinv fun call hcall hmis => hno ⟨call, hcall, hmis⟩
      exact hstep.2.elim hwp.of_ok hwp.of_exit
  | store va b =>
      cases hacts with
      | store _ hk => exact h.like hk

end

/-! ## Functions that use no list macro -/

section

lemma stops_pageAlloc : Stops Panic.NotList pageAlloc := by
  refine .bind .get fun m => ?_
  cases m.pageFreeList with
  | nil => exact .exit _
  | cons pp rest => exact .bind (.set _) fun _ => .pure _

lemma stops_pa2page (pa : Word) : Stops Panic.NotList (pa2page pa) :=
  .bind .get fun _ => .ite (.panic (by decide)) (.pure _)

lemma stops_paddr2pte (pa : Word) : Stops Panic.NotList (paddr2pte pa) :=
  .ite (.panic (by decide)) (.pure _)

lemma stops_pageFree (pp : ℕ) : Stops Panic.NotList (pageFree pp) :=
  .bind .get fun _ => .ite (.set _) (.panic (by decide))

lemma stops_pageDecref (pp : ℕ) : Stops Panic.NotList (pageDecref pp) :=
  .bind .get fun _ => .ite (.panic (by decide)) (.bind (.modify _) fun _ => .bind .get fun _ =>
    .ite (stops_pageFree pp) (.pure _))

lemma stops_pgdirWalk (d : ℕ) (va : Word) (create : Bool) :
    Stops Panic.NotList (pgdirWalk d va create) := by
  refine .bind .get fun m => .ite (.pure _) (.ite ?_ (.pure _))
  refine .bind stops_pageAlloc fun pp => .bind (.modify _) fun _ => ?_
  exact .bind (stops_paddr2pte _) fun w => .bind (.modify _) fun _ => .bind .get fun m => .pure _

lemma stops_pageLookup (d : ℕ) (va : Word) : Stops Panic.NotList (pageLookup d va) := by
  refine .bind (stops_pgdirWalk d va false) fun pte => ?_
  cases pte with
  | none => exact .pure _
  | some tj =>
      exact .bind .get fun m => .ite (.bind (stops_pa2page _) fun pp => .pure _) (.pure _)

lemma stops_pageRemove (d : ℕ) (asid va : Word) : Stops Panic.NotList (pageRemove d asid va) := by
  refine .bind (stops_pageLookup d va) fun found => ?_
  cases found with
  | none => exact .pure _
  | some r => exact .bind (stops_pageDecref _) fun _ => .modify _

lemma stops_pageInsertNew (d pp : ℕ) (va perm : Word) :
    Stops Panic.NotList (pageInsertNew d pp va perm) := by
  refine .bind (stops_pgdirWalk d va true) fun pte => ?_
  cases pte with
  | none => exact .pure _
  | some tj => exact .bind (.modify _) fun _ => .bind (stops_paddr2pte _) fun w => .modify _

lemma stops_pageInsert (d : ℕ) (asid : Word) (pp : ℕ) (va perm : Word) :
    Stops Panic.NotList (pageInsert d asid pp va perm) := by
  refine .ite (.panic (by decide)) (.bind (stops_pgdirWalk d va false) fun pte => ?_)
  cases pte with
  | none => exact stops_pageInsertNew _ _ _ _
  | some tj =>
      refine .bind .get fun m => .ite (.bind (stops_pa2page _) fun q => ?_)
        (stops_pageInsertNew _ _ _ _)
      exact .ite (.bind (stops_pageRemove _ _ _) fun _ => stops_pageInsertNew _ _ _ _) (.modify _)

lemma stops_panicOn {α : Type} {x : PmapM α} (hx : Stops Panic.NotList x) :
    Stops Panic.NotList (panicOn x) := by
  refine .bind (.attempt hx) fun r => ?_
  rcases r with (e | -) | a
  · exact .panic ⟨nofun, nofun⟩
  · exact .exit _
  · exact .pure _

lemma stops_passiveAlloc (va : Word) (d : ℕ) (asid : Word) :
    Stops Panic.NotList (passiveAlloc va d asid) := by
  refine .ite (.panic (by decide)) (.ite (.panic (by decide)) (.ite (.panic (by decide))
    (.ite (.panic (by decide)) (.ite (.panic (by decide)) ?_))))
  exact .bind (stops_panicOn stops_pageAlloc) fun _ => stops_panicOn (stops_pageInsert _ _ _ _ _)

lemma stops_envFreePde (d : ℕ) (asid : Word) (i : ℕ) :
    Stops Panic.NotList (envFreePde d asid i) := by
  refine .bind .get fun m => .ite (.ite (.panic (by decide)) (.bind ?_ fun _ => ?_)) (.pure _)
  · exact .forRange (fun _ => .bind .get fun _ => .ite (stops_pageRemove _ _ _) (.pure _)) _ _
  · exact .bind (.modify _) fun _ => .bind (stops_pa2page _) fun p => stops_pageDecref p

lemma stops_liftPm {α : Type} {x : PmapM α} (hx : Stops Panic.NotList x) :
    Stops Panic.NotList (liftPm x) := by
  refine ⟨fun k => ?_⟩
  rw [wp_liftPm]
  exact hx.wp_true k.pm

lemma stops_modifyEnv (e : ℕ) (f : Env → Env) : Stops Panic.NotList (modifyEnv e f) := .modify _

lemma stops_getCurenv : Stops Panic.NotList getCurenv := by
  refine .bind .get fun k => ?_
  cases k.curenv with
  | none => exact .panic (by decide)
  | some e => exact .pure _

lemma stops_getCurPgdir : Stops Panic.NotList getCurPgdir := by
  refine .bind .get fun k => ?_
  cases k.curPgdir with
  | none => exact .panic (by decide)
  | some d => exact .pure _

lemma stops_doTlbRefill (va asid : Word) : Stops Panic.NotList (doTlbRefill va asid) := by
  refine .bind stops_getCurPgdir fun d => .bind (stops_liftPm (stops_pageLookup d va)) fun pp => ?_
  cases pp with
  | none => exact stops_liftPm (stops_passiveAlloc va d asid)
  | some _ => exact .pure _

lemma stops_loadByte (va : Word) : Stops Panic.NotList (loadByte va) := by
  refine .bind stops_getCurPgdir fun d => .bind .get fun k => ?_
  cases k.pm.userByte d va with
  | some b => exact .pure _
  | none =>
      refine .ite (.panic (by decide)) (.bind (stops_doTlbRefill va _) fun _ =>
        .bind .get fun k => ?_)
      cases k.pm.userByte d va with
      | some b => exact .pure _
      | none => exact .panic (by decide)

lemma stops_storeByte (va : Word) (b : BitVec 8) : Stops Panic.NotList (storeByte va b) := by
  refine .bind stops_getCurPgdir fun d => .bind ?_ fun _ => .bind .get fun k => ?_
  · exact .bind .get fun k => .ite (stops_doTlbRefill va _) (.pure _)
  · cases k.pm.entryAt d va with
    | some w => exact .ite (stops_liftPm (.modify _)) (.panic (by decide))
    | none => exact .panic (by decide)

lemma stops_loadWord (va : Word) : Stops Panic.NotList (loadWord va) :=
  .bind (stops_loadByte va) fun _ => .bind (stops_loadByte _) fun _ => .bind (stops_loadByte _)
    fun _ => .bind (stops_loadByte _) fun _ => .pure _

lemma stops_loadTrapframe (va : Word) : Stops Panic.NotList (loadTrapframe va) := by
  have hwords : ∀ (n i : ℕ) (w : ℕ → Word), Stops Panic.NotList (loadWords va n i w) := by
    intro n
    induction n with
    | zero => exact fun _ _ => .pure _
    | succ n ih => exact fun i w => .bind (stops_loadWord _) fun _ => ih _ _
  exact .bind (hwords _ _ _) fun _ => .pure _

lemma stops_envid2env (envid : Word) (checkperm : Bool) :
    Stops Panic.NotList (envid2env envid checkperm) := by
  refine .bind .get fun k => .ite stops_getCurenv (.ite (.exit _) (.ite ?_ (.pure _)))
  exact .bind stops_getCurenv fun c => .ite (.exit _) (.pure _)

lemma stops_envSetupVm (e : ℕ) : Stops Panic.NotList (envSetupVm e) :=
  .bind (stops_liftPm stops_pageAlloc) fun _ => .bind (stops_liftPm (.modify _)) fun _ =>
    .bind (stops_modifyEnv _ _) fun _ => .bind .get fun _ =>
    .bind (stops_liftPm (.modify _)) fun _ => stops_liftPm (.modify _)

lemma stops_asidAlloc : Stops Panic.NotList asidAlloc := by
  refine .bind .get fun k => ?_
  cases (List.range NASID).find? fun i => !asidUsed k.asidBitmap i with
  | none => exact .exit _
  | some i => exact .bind (.set _) fun _ => .pure _

lemma stops_envAlloc (parentId : Word) : Stops Panic.NotList (envAlloc parentId) := by
  refine .bind .get fun k => ?_
  cases k.envFreeList with
  | nil => exact .exit _
  | cons e rest =>
      refine .bind (stops_envSetupVm e) fun _ => .bind (stops_modifyEnv _ _) fun _ => ?_
      refine .bind (.bind (.modify _) fun _ => .bind .get fun _ => .pure _) fun id => ?_
      refine .bind (stops_modifyEnv _ _) fun _ => .bind stops_asidAlloc fun asid => ?_
      exact .bind (stops_modifyEnv _ _) fun _ => .bind (stops_modifyEnv _ _) fun _ =>
        .bind (.modify _) fun _ => .pure _

lemma stops_voidResult : Stops Panic.NotList voidResult := .bind .get fun _ => .pure _

lemma stops_sysPrintCons (s num : Word) : Stops Panic.NotList (sysPrintCons s num) := by
  refine .ite (.exit _) (.bind (.forRange (fun i => ?_) _ _) fun _ => .pure _)
  exact .bind (stops_loadByte _) fun b => .modify _

lemma stops_sysMemAlloc (envid va perm : Word) : Stops Panic.NotList (sysMemAlloc envid va perm) :=
  .ite (.exit _) (.bind (stops_envid2env _ _) fun _ => .bind (stops_liftPm stops_pageAlloc) fun _ =>
    .bind .get fun _ => .bind (stops_liftPm (stops_pageInsert _ _ _ _ _)) fun _ => .pure _)

lemma stops_sysMemMap (srcid srcva dstid dstva perm : Word) :
    Stops Panic.NotList (sysMemMap srcid srcva dstid dstva perm) := by
  refine .ite (.exit _) (.bind (stops_envid2env _ _) fun src =>
    .bind (stops_envid2env _ _) fun dst =>
    .bind .get fun k => .bind (stops_liftPm (stops_pageLookup _ _)) fun pp => ?_)
  cases pp with
  | none => exact .exit _
  | some pp => exact .bind (stops_liftPm (stops_pageInsert _ _ _ _ _)) fun _ => .pure _

lemma stops_sysMemUnmap (envid va : Word) : Stops Panic.NotList (sysMemUnmap envid va) :=
  .ite (.exit _) (.bind (stops_envid2env _ _) fun _ => .bind .get fun _ =>
    .bind (stops_liftPm (stops_pageRemove _ _ _)) fun _ => .pure _)

lemma stops_sysExofork : Stops Panic.NotList sysExofork :=
  .bind stops_getCurenv fun _ => .bind .get fun _ => .bind (stops_envAlloc _) fun _ =>
    .bind .get fun _ => .bind (stops_modifyEnv _ _) fun _ => .bind (stops_modifyEnv _ _) fun _ =>
    .bind .get fun _ => .pure _

lemma stops_sysSetTrapframe (envid tf : Word) : Stops Panic.NotList (sysSetTrapframe envid tf) := by
  refine .ite (.exit _) (.bind (stops_envid2env _ _) fun e => .bind .get fun k => .ite ?_ ?_)
  · exact .bind (stops_loadTrapframe _) fun _ => .bind (.modify _) fun _ => .pure _
  · exact .bind (stops_loadTrapframe _) fun _ => .bind (stops_modifyEnv _ _) fun _ => .pure _

lemma stops_sendPage (c e : ℕ) (srcva perm : Word) :
    Stops Panic.NotList (sendPage c e srcva perm) := by
  refine .bind .get fun k => .bind (stops_liftPm (stops_pageLookup _ _)) fun p => ?_
  cases p with
  | none => exact .exit _
  | some p => exact .bind (stops_liftPm (stops_pageInsert _ _ _ _ _)) fun _ => .pure _

lemma stops_sysCgetc : Stops Panic.NotList sysCgetc := by
  refine .bind .get fun k => ?_
  cases k.dev.consIn.dropWhile (· = 0) with
  | nil => exact .panic (by decide)
  | cons ch rest => exact .bind (.set _) fun _ => .pure _

lemma stops_queryVpt : Stops Panic.NotList queryVpt := by
  refine .bind .get fun k => .bind (stops_loadWord _) fun instr => .ite (.panic (by decide))
    (.ite (.panic (by decide)) (.bind .get fun k => ?_))
  cases k.curPgdir with
  | none => exact .panic (by decide)
  | some d =>
      refine .bind ?_ fun res => .modify _
      exact .ite (.pure _) (.ite (stops_liftPm (stops_pgdirWalk _ _ _)) (.panic (by decide)))

lemma stops_userMod : Stops Panic.NotList userMod :=
  .bind .get fun k => .bind (.modify _) fun _ =>
    .bind (.forRange (fun _ => stops_storeByte _ _) _ _) fun _ => .bind stops_getCurenv fun c =>
    .bind .get fun k => .ite (.modify _) (.panic (by decide))

lemma stops_loadIcode (e : ℕ) (b : Binary) : Stops Panic.NotList (loadIcode e b) := by
  have hmapper : ∀ va offset perm src len,
      Stops Panic.NotList (loadIcodeMapper e va offset perm src len) := by
    intro va offset perm src len
    refine .bind (stops_liftPm stops_pageAlloc) fun p => .bind (stops_liftPm ?_) fun _ =>
      .bind .get fun k => stops_liftPm (stops_pageInsert _ _ _ _ _)
    cases src with
    | none => exact .pure _
    | some src => exact .forRange (fun i => .modify _) _ _
  have hseg : ∀ ph bin, Stops Panic.NotList (elfLoadSeg ph bin (loadIcodeMapper e)) :=
    fun ph bin => .bind (.ite (hmapper _ _ _ _ _) (.pure _)) fun _ =>
      .bind (.forRange (fun i => hmapper _ _ _ _ _) _ _) fun _ =>
        .forRange (fun i => hmapper _ _ _ _ _) _ _
  refine .ite (.bind (.forRange (fun i => .ite (.bind (.attempt (hseg _ _)) fun r => ?_) (.pure _))
    _ _) fun _ => stops_modifyEnv _ _) (.panic (by decide))
  rcases r with (e | -) | a
  · exact .panic ⟨nofun, nofun⟩
  · exact .exit _
  · exact .pure _

end

/-! ## Functions that do -/

section

variable {k k' : Kernel} {ev : Event} {call : Syscall} {e : ℕ} {yield : Bool} {tf : Trapframe}

lemma stops_envid2env_bind {α : Type} {envid : Word} {checkperm : Bool} {f : ℕ → KernelM α}
    (hf : ∀ e, k.Resolves envid checkperm e →
      wp (f e) k (fun _ _ => True) (fun _ _ => True) Panic.NotList) :
    wp (envid2env envid checkperm >>= f) k (fun _ _ => True) (fun _ _ => True) Panic.NotList := by
  rw [wp_bind]
  refine ((stops_envid2env envid checkperm).wp_and (wp_envid2env_resolves k envid checkperm)).mono
    ?_ (fun _ _ _ => trivial) fun _ hp => hp
  rintro e k' ⟨rfl, he⟩
  exact hf e he

namespace Kernel.SchedOk

lemma wp_schedule_notList {α : Type} (h : k.SchedOk) (hinv : EnvInv k) :
    wp (schedule yield : KernelM α) k (fun _ _ => True) (fun _ _ => True) Panic.NotList :=
  (wp_schedule_of (fun hno => absurd (h.requeued hinv).1 hno) (fun _ _ _ => by decide)
    fun _ _ _ _ _ => by decide).mono (fun _ _ hf => hf.elim) (fun _ _ _ => trivial) fun _ hp => hp

lemma wp_envFree_notList (h : k.SchedOk) (hinv : EnvInv k) (he : (k.envs e).envStatus = .runnable) :
    wp (envFree e) k (fun _ _ => True) (fun _ _ => True) Panic.NotList := by
  have hpages : Stops Panic.NotList (do
      Prog.forRange (envFreePde (k.envs e).envPgdir (k.envs e).envAsid) 0 (PDX UTOP)
      let pa ← paddr (page2pa (k.envs e).envPgdir)
      let p ← pa2page pa
      pageDecref p : PmapM Unit) := by
    refine .bind (.forRange (fun i => stops_envFreePde _ _ i) _ _) fun _ => ?_
    refine .bind (.ite (.panic (by decide)) (.pure _)) fun pa => ?_
    exact .bind (stops_pa2page _) fun p => stops_pageDecref p
  obtain ⟨q, hproper, hq⟩ := h.exists_remove hinv he
  rw [envFree, wp_bind, wp_get, wp_bind, wp_liftPm]
  refine (hpages.wp_true k.pm).mono (fun _ m _ => ?_) (fun _ _ _ => trivial) fun _ hp => hp
  simp only [wp_bind, asidFree, wp_modify, wp_modifyEnv]
  exact wp_onSchedList_proper hproper hq trivial

lemma wp_envDestroy_notList (h : k.SchedOk) (hinv : EnvInv k)
    (he : (k.envs e).envStatus = .runnable) :
    wp (envDestroy e) k (fun _ _ => True) (fun _ _ => True) Panic.NotList := by
  rw [envDestroy, wp_bind]
  refine ((h.wp_envFree_notList hinv he).and (wp_envFree_acts k e)).mono ?_
    (fun _ _ _ => trivial) fun _ hp => hp.1
  rintro - k₁ ⟨-, m, q, hq, rfl⟩
  rw [wp_bind, wp_get, wp_ite, wp_pure]
  refine ⟨fun _ => ?_, fun _ => trivial⟩
  rw [wp_bind, wp_modify]
  have h' : { k.freed e m q with curenv := none }.SchedOk := h.remove he hq rfl (by simp)
  have hinv' : EnvInv { k.freed e m q with curenv := none } := by
    refine hinv.freed ?_ m q fun c hc => absurd hc (by simp)
    rw [he]
    decide
  exact h'.wp_schedule_notList hinv'

lemma wp_setEnvStatus_notList (h : k.SchedOk) (hinv : EnvInv k) (envid : Word) {status : EnvStatus}
    (hlive : status ≠ .free) :
    wp (setEnvStatus envid status) k (fun _ _ => True) (fun _ _ => True) Panic.NotList := by
  refine stops_envid2env_bind fun e he => ?_
  rw [wp_bind, updateSchedList, wp_bind, wp_get, wp_ite]
  refine ⟨fun hne => ?_, fun _ => trivial⟩
  rw [wp_ite]
  refine ⟨fun hs => ?_, fun hs => ?_⟩
  · obtain ⟨q, hproper, hq⟩ := h.exists_insert hinv (hs ▸ hne) (.inr rfl)
    exact wp_onSchedList_proper hproper hq trivial
  · have hrun : (k.envs e).envStatus = .runnable := by
      have hlive' := hinv.live_of_resolves he
      cases hst : (k.envs e).envStatus <;> cases status <;> simp_all
    obtain ⟨q, hproper, hq⟩ := h.exists_remove hinv hrun
    exact wp_onSchedList_proper hproper hq trivial

lemma wp_sysIpcRecv_notList (h : k.SchedOk) (hinv : EnvInv k) {dstva : Word}
    (hno : ¬ (Syscall.ipcRecv dstva).Misuses k) :
    wp (sysIpcRecv dstva) k (fun _ _ => True) (fun _ _ => True) Panic.NotList := by
  rw [sysIpcRecv, wp_ite, wp_exit]
  refine ⟨fun _ => trivial, fun hva => ?_⟩
  have hwaits : (Syscall.ipcRecv dstva).Waits := by
    by_cases h0 : dstva = 0#32
    · exact .inl h0
    · exact .inr (Bool.eq_false_iff.mpr fun hill => hva ⟨h0, hill⟩)
  rw [wp_bind, wp_getCurenv]
  refine ⟨fun c hc => ?_, fun _ => by decide⟩
  have hrun : (k.envs c).envStatus = .runnable := by
    by_contra hoff
    exact hno (.recv hwaits hc hoff)
  obtain ⟨q, hproper, hq⟩ := h.exists_remove hinv hrun
  rw [wp_bind, wp_modifyEnv, wp_bind]
  refine wp_onSchedList_proper hproper hq ?_
  rw [wp_bind, wp_modify]
  have h' : (k.receiving c dstva q).SchedOk := h.remove hrun hq rfl (by simp)
  have hinv' : EnvInv (k.receiving c dstva q) :=
    hinv.update (hinv.cur_live c hc) rfl (by simp) rfl rfl rfl
  exact h'.wp_schedule_notList hinv'

lemma wp_sysIpcTrySend_notList (h : k.SchedOk) (hinv : EnvInv k) {envid value srcva perm : Word}
    (hno : ¬ (Syscall.ipcTrySend envid value srcva perm).Misuses k) :
    wp (sysIpcTrySend envid value srcva perm) k (fun _ _ => True) (fun _ _ => True)
      Panic.NotList := by
  rw [sysIpcTrySend, wp_ite, wp_exit]
  refine ⟨fun _ => trivial, fun hva => ?_⟩
  have hsrc : srcva = 0#32 ∨ isIllegalVa srcva = false := by
    by_cases h0 : srcva = 0#32
    · exact .inl h0
    · exact .inr (Bool.eq_false_iff.mpr fun hill => hva ⟨h0, hill⟩)
  refine stops_envid2env_bind fun e he => ?_
  rw [wp_bind, wp_get, wp_ite, wp_exit]
  refine ⟨fun _ => trivial, fun hrecv => ?_⟩
  rw [wp_bind, wp_getCurenv]
  refine ⟨fun c _ => ?_, fun _ => by decide⟩
  obtain ⟨q, hproper, hq⟩ :=
    h.exists_insert hinv (fun hrun => hno (.send hsrc he hrecv hrun)) (.inr rfl)
  rw [wp_bind, wp_modifyEnv, wp_bind]
  refine wp_onSchedList_proper hproper hq ?_
  exact (Stops.ite (stops_sendPage c e srcva perm) (.pure _)).wp_true _

/-- **A system call that is no misuse uses the macros properly.** -/
lemma wp_syscall_notList (h : k.SchedOk) (hinv : EnvInv k) (hno : ¬ call.Misuses k) :
    wp call.run k (fun _ _ => True) (fun _ _ => True) Panic.NotList := by
  cases call with
  | putchar c => exact (Stops.bind (.modify _) fun _ => stops_voidResult).wp_true k
  | printCons s num => exact (stops_sysPrintCons s num).wp_true k
  | getenvid => exact (Stops.bind stops_getCurenv fun _ => .bind .get fun _ => .pure _).wp_true k
  | yield => exact h.wp_schedule_notList hinv
  | envDestroy envid =>
      refine stops_envid2env_bind fun e he => ?_
      rw [wp_bind]
      refine (h.wp_envDestroy_notList hinv ?_).mono (fun _ _ _ => trivial) (fun _ _ _ => trivial)
        fun _ hp => hp
      by_contra hoff
      exact hno (.destroy he hoff)
  | setTlbModEntry envid func =>
      exact (Stops.bind (stops_envid2env _ _) fun e => .bind (stops_modifyEnv _ _) fun _ =>
        .pure _).wp_true k
  | memAlloc envid va perm => exact (stops_sysMemAlloc envid va perm).wp_true k
  | memMap srcid srcva dstid dstva perm =>
      exact (stops_sysMemMap srcid srcva dstid dstva perm).wp_true k
  | memUnmap envid va => exact (stops_sysMemUnmap envid va).wp_true k
  | exofork => exact stops_sysExofork.wp_true k
  | setEnvStatus envid status =>
      rw [Syscall.run, sysSetEnvStatus]
      split_ifs
      · exact h.wp_setEnvStatus_notList hinv envid (by decide)
      · exact h.wp_setEnvStatus_notList hinv envid (by decide)
      · exact trivial
  | setTrapframe envid tf => exact (stops_sysSetTrapframe envid tf).wp_true k
  | panic msg => exact (by decide : Panic.NotList .sysPanic)
  | ipcTrySend envid value srcva perm => exact h.wp_sysIpcTrySend_notList hinv hno
  | ipcRecv dstva => exact h.wp_sysIpcRecv_notList hinv hno
  | cgetc => exact stops_sysCgetc.wp_true k
  | writeDev va value =>
      exact (Stops.ite (Stops.bind (.modify _) fun _ => stops_voidResult)
        stops_voidResult).wp_true k
  | readDev va => exact (Stops.ite (Stops.bind .get fun _ => .pure _) (.pure _)).wp_true k

/-- **A trap that is no misuse uses the macros properly.** -/
lemma wp_trap_notList (h : k.SchedOk) (hinv : EnvInv k)
    (hno : ∀ call, tf.Calls call → ¬ call.Misuses k) :
    wp (trap tf) k (fun _ _ => True) (fun _ _ => True) Panic.NotList := by
  have hok : { k with ktf := tf }.SchedOk := h.setKtf tf
  have hinv₁ : EnvInv { k with ktf := tf } := hinv.setKtf tf
  rw [trap, wp_bind, wp_modify, trapsDispatch, wp_bind, wp_get, wp_ite]
  refine ⟨fun _ => ?_, fun _ => ?_⟩
  · rw [interruptHandler, wp_bind, wp_get, wp_ite]
    exact ⟨fun _ => hok.wp_schedule_notList hinv₁, fun _ =>
      (by decide : Panic.NotList .unhandledIntr)⟩
  · rw [exceptionHandler, wp_bind, wp_get]
    simp only [wp_ite, wp_panic, wp_bind, wp_getCurPgdir]
    refine ⟨fun _ => by decide, fun _ => ⟨fun hcause => ?_, fun _ => ⟨fun _ => ⟨fun _ => ?_,
      fun _ => ?_⟩, fun _ => ⟨fun _ => ⟨fun d _ => ⟨fun _ => ?_, fun _ => ?_⟩,
      fun _ => by decide⟩, fun _ => by decide⟩⟩⟩⟩
    · rw [doSyscall, wp_bind, wp_get]
      cases hcall : tf.syscall with
      | none => exact trivial
      | some call =>
          simp only [wp_bind, wp_modify, wp_callResult]
          have h₂ : (k.entering tf).SchedOk := h.setKtf _
          have hno₂ : ¬ call.Misuses (k.entering tf) :=
            fun hmis => hno call ⟨hcause, hcall⟩ (hmis.of_envs rfl rfl)
          refine (h₂.wp_syscall_notList (hinv.setKtf _) hno₂).mono (fun _ _ _ => trivial)
            (fun x _ _ => ?_) fun _ hp => hp
          cases x <;> trivial
    · exact stops_queryVpt.wp_true _
    · exact (Stops.bind .get fun _ => stops_doTlbRefill _ _).wp_true _
    · exact stops_userMod.wp_true _
    · exact (Stops.bind .get fun _ => stops_doTlbRefill _ _).wp_true _

lemma wp_envCreate_notList (h : k.SchedOk) (hinv : EnvInv k) (b : Binary) (priority : Word) :
    wp (do let _ ← envCreate b priority : KernelM Unit) k (fun _ _ => True) (fun _ _ => True)
      Panic.NotList := by
  rw [wp_bind]
  cases hfree : k.envFreeList with
  | nil =>
      rw [envCreate, wp_bind, wp_attempt, wp_envAlloc, hfree]
      exact (by decide : Panic.NotList .noEnv)
  | cons e rest =>
      cases hpage : k.pm.pageFreeList with
      | nil =>
          rw [envCreate, wp_bind, wp_attempt, wp_envAlloc, hfree, hpage]
          exact (by decide : Panic.NotList .noEnv)
      | cons pp prest =>
          cases hasid : (List.range NASID).find? fun i => !asidUsed k.asidBitmap i with
          | none =>
              rw [envCreate, wp_bind, wp_attempt, wp_envAlloc, hfree, hpage, hasid]
              exact (by decide : Panic.NotList .noEnv)
          | some i =>
              have hold : (k.envs e).envStatus = .free := hinv.free_free e (by simp [hfree])
              obtain ⟨q, hproper, hq⟩ := h.exists_insert hinv (e := e) (by simp [hold]) (.inl rfl)
              rw [wp_envCreate_alloc hfree hpage hasid]
              refine (stops_loadIcode e b).wp_and (wp_loadIcode_acts e b fun m dev => ?_)
              exact wp_onSchedList_proper hproper hq trivial

/-- **An event that is no misuse uses the macros properly.** -/
lemma wp_event_notList (h : k.SchedOk) (hinv : EnvInv k) (hno : ¬ ev.Misuses k) :
    wp ev.prog k (fun _ _ => True) (fun _ _ => True) Panic.NotList := by
  cases ev with
  | create img priority => exact h.wp_envCreate_notList hinv img.toBinary priority
  | trap tf => exact h.wp_trap_notList hinv fun call hcall hmis => hno ⟨call, hcall, hmis⟩
  | store va b =>
      refine (Stops.bind stops_getCurPgdir fun d => .bind .get fun k => ?_).wp_true k
      cases k.pm.entryAt d va with
      | none => exact .pure _
      | some w => exact stops_liftPm (.modify _)

end Kernel.SchedOk

end

/-! ## Misuses -/

section

variable {mc : Machine} {k k' : Kernel} {ev : Event} {call : Syscall} {tf : Trapframe}

/-- An improper use of a macro stops the machine that checks it. -/
lemma wp_onSchedList_improper {op : TailQueue.Op ℕ} {Q : Unit → Kernel → Prop}
    {E : Exit → Kernel → Prop} (haudit : k.audit = true)
    (hno : ¬ op.proper (NENV + 1) k.envSchedList = true) :
    wp (onSchedList op) k Q E fun _ => True := by
  rw [onSchedList, wp_bind, wp_get, if_pos ⟨haudit, Bool.eq_false_iff.mpr hno⟩]
  trivial

/-- **The machine that checks the uses does not get past a misuse.** -/
lemma Kernel.SchedOk.wp_misuse (h : k.SchedOk) (hinv : EnvInv k) (haudit : k.audit = true)
    (hmis : call.Misuses k) :
    wp call.run k (fun _ _ => False) (fun _ _ => False) fun _ => True := by
  cases hmis with
  | @destroy envid e he hoff =>
      rw [Syscall.run, sysEnvDestroy, he.wp, wp_bind, envDestroy, wp_bind, envFree, wp_bind, wp_get,
        wp_bind, wp_liftPm]
      have hpages : Exits (fun _ => False) (do
          Prog.forRange (envFreePde (k.envs e).envPgdir (k.envs e).envAsid) 0 (PDX UTOP)
          let pa ← paddr (page2pa (k.envs e).envPgdir)
          let p ← pa2page pa
          pageDecref p : PmapM Unit) := by
        refine .bind (.forRange (fun i => exits_envFreePde _ _ i) _ _) fun _ => ?_
        refine .bind (.ite (.panic _) (.pure _)) fun pa => ?_
        exact .bind (exits_pa2page _) fun p => exits_pageDecref p
      refine (hpages.wp_true k.pm).mono (fun _ m _ => ?_) (fun _ _ hf => hf) fun _ hp => hp
      simp only [wp_bind, asidFree, wp_modify, wp_modifyEnv]
      exact wp_onSchedList_improper haudit fun hp => hoff ((h.proper_remove hinv).mp hp)
  | @recv dstva c hwaits hcur hoff =>
      have hva : ¬ (dstva ≠ 0#32 ∧ isIllegalVa dstva = true) := by
        rintro ⟨h0, hill⟩
        exact Bool.false_ne_true ((hwaits.resolve_left h0).symm.trans hill)
      rw [Syscall.run, sysIpcRecv, if_neg hva, wp_bind, wp_getCurenv]
      refine ⟨fun c' hc' => ?_, fun _ => trivial⟩
      obtain rfl := Option.some.inj (hcur.symm.trans hc')
      rw [wp_bind, wp_modifyEnv, wp_bind]
      exact wp_onSchedList_improper haudit fun hp => hoff ((h.proper_remove hinv).mp hp)
  | @send envid value srcva perm e hsrc he hrecv hon =>
      have hva : ¬ (srcva ≠ 0#32 ∧ isIllegalVa srcva = true) := by
        rintro ⟨h0, hill⟩
        exact Bool.false_ne_true ((hsrc.resolve_left h0).symm.trans hill)
      rw [Syscall.run, sysIpcTrySend, if_neg hva, he.wp, wp_bind, wp_get, if_neg hrecv, wp_bind,
        wp_getCurenv]
      refine ⟨fun c _ => ?_, fun _ => trivial⟩
      rw [wp_bind, wp_modifyEnv, wp_bind]
      exact wp_onSchedList_improper haudit
        fun hp => ((h.proper_insert hinv (.inr rfl)).mp hp) hon

lemma Kernel.SchedOk.not_step (h : k.SchedOk) (hinv : EnvInv k) (haudit : k.audit = true)
    (hmis : ev.Misuses k) : ¬ Step k ev k' := by
  rintro ⟨-, hrun⟩
  cases ev with
  | create img priority => exact hmis
  | store va b => exact hmis
  | trap tf =>
      obtain ⟨call, hcall, hmis⟩ := hmis
      have hwp : wp (trap tf) k (fun _ _ => False) (fun _ _ => False) fun _ => True := by
        rw [wp_trap_call hcall]
        have hok : (k.entering tf).SchedOk := h.setKtf _
        refine (hok.wp_misuse (hinv.setKtf _) haudit (hmis.of_envs rfl rfl)).mono
          (fun _ _ hf => hf) (fun _ _ hf => hf.elim) fun _ hp => hp
      exact hrun.elim hwp.of_ok hwp.of_exit

lemma Kernel.SchedOk.setAudit (h : k.SchedOk) (b : Bool) : { k with audit := b }.SchedOk :=
  h.congr rfl fun _ => Iff.rfl

lemma EnvInv.setAudit (h : EnvInv k) (b : Bool) : EnvInv { k with audit := b } :=
  h.congr rfl (fun _ => rfl) (fun _ _ => rfl) rfl

lemma Event.Misuses.of_envs (h : ev.Misuses k) (henvs : k'.envs = k.envs)
    (hcur : k'.curenv = k.curenv) : ev.Misuses k' := by
  cases ev with
  | create img priority => exact h
  | store va b => exact h
  | trap tf =>
      obtain ⟨call, hcall, hmis⟩ := h
      exact ⟨call, hcall, hmis.of_envs henvs hcur⟩

lemma Machine.Boots.schedOk (h : mc.Boots k) : k.SchedOk := by
  obtain ⟨dev, T, -, -, hb⟩ := h.booted false false nofun
  refine ⟨[], hb.populated.sched, fun e => ?_⟩
  simp [h.env_free e]

/-- **The list of the runnable environments.**  In a run in which no call destroys an environment
that is not runnable, receives for one that is not, or sends to a receiver that has been woken, the
list is well formed in every state and has exactly the runnable environments.  From such a state an
event that is no such call uses no macro on an environment on the wrong side of the list, and one
that is does. -/
theorem sched_list_invariant {mc : Machine} {k : Kernel}
    (h : Reaches mc (fun k ev => ¬ ev.Misuses k) k) :
    k.SchedOk ∧ ∀ ev, ev.Enabled k →
      (¬ ev.Misuses k → ∀ audit p, ev.prog { k with audit := audit } = .panic p → p.NotList) ∧
      (ev.Misuses k → ∀ k', ¬ Step { k with audit := true } ev k') := by
  have hok : k.SchedOk := by
    refine Reachable.invariant_of h (J := EnvInv) (fun _ hr => Reaches.envInv hr)
      (fun _ hb _ => hb.schedOk) fun s ev s' hinv _ hs hstep => ?_
    exact hs.step hinv hstep.1 hstep.2
  have hinv := h.envInv
  refine ⟨hok, fun ev _ => ⟨fun hno audit p hp => ?_, fun hmis k' => ?_⟩⟩
  · have hno' : ¬ ev.Misuses { k with audit := audit } :=
      fun hmis => hno (hmis.of_envs rfl rfl)
    exact ((hok.setAudit audit).wp_event_notList (hinv.setAudit audit) hno').of_panic hp
  · exact (hok.setAudit true).not_step (hinv.setAudit true) rfl (hmis.of_envs rfl rfl)

/-- Two environments are created, and the second one runs. -/
theorem sched_list_invariant_small :
    ∃ k, Reaches (smallMachine false) (fun k ev => ¬ ev.Misuses k) k ∧ k.curenv = some 1 ∧
      k.SchedOk ∧ ∀ p, (Event.trap tickFrame).prog { k with audit := true } = .panic p →
      p.NotList := by
  have htick : ∀ k : Kernel, ¬ (Event.trap tickFrame).Misuses k :=
    fun k ⟨call, hcall, _⟩ => not_calls_tickFrame call hcall
  obtain ⟨k₀, T, k, hk₀, hk, -, hcur, -⟩ := exists_started false
    (C := fun k ev => ¬ ev.Misuses k) (fun _ _ => id) htick (show 1 < NASID by decide)
  have hinv := sched_list_invariant (hk.reaches hk₀)
  exact ⟨k, hk.reaches hk₀, hcur, hinv.1,
    (hinv.2 (.trap tickFrame) (.inl (by simp [hcur]))).1 (htick k) true⟩

end

end MosRv
