import MosRv.KernelInv

/-!
# Every trap keeps the kernel invariant

`Keeps T x`: run from any state with `KInv T`, the program `x` leaves `KInv T` behind, however it
ends, and fails no assertion about `pp_ref`.  It is closed under sequencing, branching and loops,
so most functions of the kernel are dealt with by naming their parts.

The three calls that map a page under a permission chosen by user code need two conditions on the
state they start from (`Syscall.Admissible`): the permission fits the page, and the page has fewer
than 65535 references.  `KInv.wp_trap` is the result for a whole trap.
-/

namespace MosRv

open RefGraph

/-- `x` keeps the kernel invariant. -/
def Keeps (T : Template) {α : Type} (x : KernelM α) : Prop :=
  ∀ k, KInv T k → Prog.wp x k (fun _ k' => KInv T k') (fun _ k' => KInv T k') Panic.NotRef

section

variable {T : Template} {α β : Type} {k k' : Kernel} {e d : ℕ}

/-! ## Sequencing -/

namespace Keeps

lemma pure (a : α) : Keeps T (Pure.pure a : KernelM α) := fun _ h => h

lemma exit (c : Exit) : Keeps T (Prog.exit c : KernelM α) := fun _ h => h

lemma panic {p : Panic} (hp : p.NotRef) : Keeps T (Prog.panic p : KernelM α) := fun _ _ => hp

lemma bind {x : KernelM α} {f : α → KernelM β} (hx : Keeps T x) (hf : ∀ a, Keeps T (f a)) :
    Keeps T (x >>= f) := by
  intro k h
  rw [Prog.wp_bind]
  exact (hx k h).mono (fun a k' h' => hf a k' h') (fun _ _ h' => h') fun _ hp => hp

/-- The state is read, and what comes next may use that it satisfies the invariant. -/
lemma get_bind {f : Kernel → KernelM β}
    (hf : ∀ k, KInv T k → Prog.wp (f k) k (fun _ k' => KInv T k') (fun _ k' => KInv T k')
      Panic.NotRef) : Keeps T (Prog.get >>= f) := by
  intro k h
  rw [Prog.wp_bind, Prog.wp_get]
  exact hf k h

lemma modify {f : Kernel → Kernel} (hf : ∀ k, KInv T k → KInv T (f k)) :
    Keeps T (Prog.modify f) := fun k h => hf k h

lemma ite {c : Prop} [Decidable c] {x y : KernelM α} (hx : Keeps T x) (hy : Keeps T y) :
    Keeps T (if c then x else y) := by
  split_ifs
  · exact hx
  · exact hy

lemma forRange {body : ℕ → KernelM Unit} {lo n : ℕ}
    (hb : ∀ i, lo ≤ i → i < lo + n → Keeps T (body i)) : Keeps T (Prog.forRange body lo n) :=
  fun _ h => Prog.wp_forRange (fun _ k => KInv T k) n lo h fun i k hi hn hk => hb i hi hn k hk

lemma attempt {x : KernelM α} (hx : Keeps T x) : Keeps T (Prog.attempt x) := by
  intro k h
  rw [Prog.wp_attempt]
  exact hx k h

lemma getCurenv : Keeps T getCurenv := by
  intro k h
  rw [wp_getCurenv]
  exact ⟨fun _ _ => h, fun _ => by decide⟩

lemma onSchedList (op : TailQueue.Op ℕ) : Keeps T (onSchedList op) :=
  fun _ h => wp_onSchedList (by decide) (by decide) fun _ _ => h.of_eq rfl rfl rfl rfl rfl rfl

/-- An env changes in a field that does not matter here. -/
lemma modifyEnv {f : Env → Env} (hs : ∀ v, (f v).envStatus = v.envStatus)
    (hd : ∀ v, (f v).envPgdir = v.envPgdir) (hva : ∀ v, (f v).envIpcDstva = v.envIpcDstva) :
    Keeps T (modifyEnv e f) := by
  intro k h
  rw [wp_modifyEnv]
  exact h.updateEnv e (by rw [hs]) (hd _) (by rw [hva]; exact h.dstva e)

end Keeps

/-! ## User memory -/

/-- The entries of the template let nobody write. -/
lemma Pages.not_writable {n : ℕ} {dirs : ℕ → Option ℕ} {m : Pmap} {va w : Word}
    (h : Pages T n dirs m) (he : dirs e = some d) (hva : va < ULIM)
    (ho : T.own (PDX va) = false) (hw : m.entryAt d va = some w) : ¬ HasFlag w PTE_W := by
  have hlt : PDX va < PDX ULIM := (lt_ULIM_iff va).mp hva
  have htpl := h.template e d he (PDX va) (PDX_lt va) ho
  obtain ⟨tj, hwalk, hval⟩ := Option.bind_eq_some_iff.mp hw
  obtain ⟨⟨hv, ht⟩, hj⟩ := Pmap.walk_eq_some (t := tj.1) (j := tj.2) |>.mp hwalk
  rw [Pmap.pde, htpl] at hv ht
  obtain ⟨hent, hlo, hhi⟩ := T.shared_of_entry hlt ho hv
  rw [hent] at hv ht
  obtain ⟨hnot, hshared⟩ := T.shared (PDX va) hlo hhi hv
  rw [ht] at hnot hshared
  obtain ⟨hv', rfl⟩ := validWord_eq_some.mp hval
  rw [h.fixed _ hnot, ← hj] at hv' ⊢
  exact (hshared (PTX va) (PTX_lt va) hv').2

/-- **Stores through a writable entry leave the page tables alone.** -/
lemma Pages.setByte {n : ℕ} {dirs : ℕ → Option ℕ} {m : Pmap} {va w : Word}
    (h : Pages T n dirs m) (he : dirs e = some d) (hva : va < ULIM)
    (hw : m.entryAt d va = some w) (hW : HasFlag w PTE_W) (a : ℕ) (b : BitVec 8) :
    Pages T n dirs (m.setByte (pteFrame w) a b) := by
  have ho : T.own (PDX va) = true := by
    by_contra ho
    exact h.not_writable he hva (by simpa using ho) hw hW
  have htgt : target T.own dirs m (.pte e (PDX va) (PTX va)) = some (pteFrame w) := by
    rw [target, ← entryAt_eq_slotWord ho he, hw, Option.map_some]
  refine h.scribble rfl rfl rfl fun f hne => ?_
  have hf : f = pteFrame w := by
    by_contra hc
    exact hne (Pmap.write_mem_of_ne _ _ _ hc)
  subst hf
  exact ⟨h.counted.tgt_pool _ _ htgt, h.not_tableFrame htgt⟩

lemma KInv.curPgdir (h : KInv T k) (hd : k.curPgdir = some d) (hc : k.curenv = some e) :
    k.dirs e = some d := by
  obtain ⟨d', hd', hcur⟩ := h.cur e hc
  rw [hd] at hcur
  cases hcur
  exact hd'

/-- `_do_tlb_refill` keeps the invariant, and `cur_pgdir` where it is. -/
lemma KInv.wp_doTlbRefill (h : KInv T k) (hc : k.curenv = some e) {va : Word} (hs : T.Serves va)
    (asid : Word) :
    Prog.wp (doTlbRefill va asid) k
      (fun _ k' => KInv T k' ∧ ∃ m, k' = { k with pm := m }) (fun _ _ => False) Panic.NotRef := by
  rw [doTlbRefill, Prog.wp_bind, wp_getCurPgdir]
  refine ⟨fun d hd => ?_, fun _ => by decide⟩
  have hdir := h.curPgdir hd hc
  rw [Prog.wp_bind, wp_liftPm, wp_pageLookup]
  have halloc : Prog.wp (liftPm (passiveAlloc va d asid)) k
      (fun _ k' => KInv T k' ∧ ∃ m, k' = { k with pm := m }) (fun _ _ => False)
      Panic.NotRef := by
    rw [wp_liftPm]
    exact (h.pages.wp_passiveAlloc asid hdir hs).mono (fun _ m hm => ⟨h.setPm hm.1, m, rfl⟩)
      (fun _ _ hf => hf) fun _ hp => hp
  cases k.pm.walk d va with
  | none => exact halloc
  | some tj =>
      exact ⟨fun _ => halloc, fun _ => ⟨fun _ => by decide, fun _ => ⟨h, k.pm, rfl⟩⟩⟩

/-- Code that runs for the current env: it needs one to be there. -/
def KeepsCur (T : Template) {α : Type} (x : KernelM α) : Prop :=
  ∀ k e, KInv T k → k.curenv = some e →
    Prog.wp x k (fun _ k' => KInv T k' ∧ k'.curenv = some e) (fun _ _ => False) Panic.NotRef

lemma KeepsCur.bind {x : KernelM α} {f : α → KernelM β} (hx : KeepsCur T x)
    (hf : ∀ a, KeepsCur T (f a)) : KeepsCur T (x >>= f) := by
  intro k e h hc
  rw [Prog.wp_bind]
  exact (hx k e h hc).mono (fun a k' h' => hf a k' e h'.1 h'.2) (fun _ _ h' => h') fun _ hp => hp

lemma KeepsCur.pure (a : α) : KeepsCur T (Pure.pure a : KernelM α) := fun _ _ h hc => ⟨h, hc⟩

lemma KeepsCur.forRange {body : ℕ → KernelM Unit} {lo n : ℕ}
    (hb : ∀ i, lo ≤ i → i < lo + n → KeepsCur T (body i)) :
    KeepsCur T (Prog.forRange body lo n) :=
  fun _ e h hc => Prog.wp_forRange (fun _ k => KInv T k ∧ k.curenv = some e) n lo ⟨h, hc⟩
    fun i k hi hn hk => hb i hi hn k e hk.1 hk.2

lemma keepsCur_doTlbRefill {va : Word} (hs : T.Serves va) (asid : Word) :
    KeepsCur T (doTlbRefill va asid) := by
  intro k e h hc
  refine (h.wp_doTlbRefill hc hs asid).mono ?_ (fun _ _ hf => hf) fun _ hp => hp
  rintro - k' ⟨h', m, rfl⟩
  exact ⟨h', hc⟩

lemma keepsCur_loadByte (va : Word) : KeepsCur T (loadByte va) := by
  intro k e h hc
  rw [loadByte, Prog.wp_bind, wp_getCurPgdir]
  refine ⟨fun d hd => ?_, fun _ => by decide⟩
  rw [Prog.wp_bind, Prog.wp_get]
  cases k.pm.userByte d va with
  | some b => exact ⟨h, hc⟩
  | none =>
      simp only [Prog.wp_ite, Prog.wp_panic, Prog.wp_bind, Prog.wp_get]
      refine ⟨fun _ => by decide, fun hwin => ?_⟩
      refine (keepsCur_doTlbRefill (.inr hwin) k.satpAsid k e h hc).mono ?_
        (fun _ _ hf => hf) fun _ hp => hp
      intro _ k' h'
      cases k'.pm.userByte d va with
      | some b => exact h'
      | none => exact (by decide : Panic.NotRef .hang)

lemma KInv.wp_storeMapped (h : KInv T k) (hc : k.curenv = some e) (hd : k.curPgdir = some d)
    {va : Word} (hva : va < ULIM) (b : BitVec 8) :
    Prog.wp (storeMapped d va b) k (fun _ k' => KInv T k' ∧ k'.curenv = some e) (fun _ _ => False)
      Panic.NotRef := by
  rw [storeMapped, Prog.wp_bind, Prog.wp_get]
  cases hw : k.pm.entryAt d va with
  | none => exact (by decide : Panic.NotRef .hang)
  | some w =>
      simp only [Prog.wp_ite, wp_liftPm, Prog.wp_modify, Prog.wp_panic]
      exact ⟨fun hW => ⟨h.setPm (h.pages.setByte (h.curPgdir hd hc) hva hw hW _ _), hc⟩,
        fun _ => by decide⟩

lemma keepsCur_storeByte {va : Word} (hva : va < UTOP) (b : BitVec 8) :
    KeepsCur T (storeByte va b) := by
  intro k e h hc
  rw [storeByte, Prog.wp_bind, wp_getCurPgdir]
  refine ⟨fun d hd => ?_, fun _ => by decide⟩
  rw [Prog.wp_bind, faultIn, Prog.wp_bind, Prog.wp_get, Prog.wp_ite, Prog.wp_pure]
  have hlt := lt_ULIM_of_lt_UTOP hva
  refine ⟨fun _ => ?_, fun _ => h.wp_storeMapped hc hd hlt b⟩
  refine (h.wp_doTlbRefill hc (T.serves_of_lt_UTOP hva) k.satpAsid).mono ?_ (fun _ _ hf => hf)
    fun _ hp => hp
  rintro - k' ⟨h', m, rfl⟩
  exact h'.wp_storeMapped hc hd hlt b

lemma keepsCur_loadWord (va : Word) : KeepsCur T (loadWord va) :=
  (keepsCur_loadByte va).bind fun _ => (keepsCur_loadByte _).bind fun _ =>
    (keepsCur_loadByte _).bind fun _ => (keepsCur_loadByte _).bind fun _ => KeepsCur.pure _

lemma keepsCur_loadWords (va : Word) :
    ∀ (n i : ℕ) (w : ℕ → Word), KeepsCur T (loadWords va n i w)
  | 0, _, _ => KeepsCur.pure _
  | n + 1, i, _ => (keepsCur_loadWord _).bind fun _ => keepsCur_loadWords va n (i + 1) _

lemma keepsCur_loadTrapframe (va : Word) : KeepsCur T (loadTrapframe va) :=
  (keepsCur_loadWords va _ _ _).bind fun _ => KeepsCur.pure _

lemma keepsCur_storeTrapframe {va : Word} (hva : va.toNat + TF_SIZE ≤ UTOP.toNat)
    (tf : Trapframe) : KeepsCur T (storeTrapframe va tf) := by
  refine KeepsCur.forRange fun i _ hi => keepsCur_storeByte ?_ _
  rw [show UTOP.toNat = 0x7f400000 by decide] at hva
  rw [BitVec.lt_def, BitVec.toNat_add, BitVec.toNat_ofNat, show UTOP.toNat = 0x7f400000 by decide]
  simp only [TF_SIZE] at hva hi
  omega

/-! ## Scheduling -/

@[simp] lemma running_fields (k : Kernel) (e e' : ℕ) :
    ((k.running e).envs e').envStatus = (k.envs e').envStatus ∧
      ((k.running e).envs e').envPgdir = (k.envs e').envPgdir ∧
      ((k.running e).envs e').envIpcDstva = (k.envs e').envIpcDstva := by
  simp only [Kernel.running, Function.update_apply]
  split_ifs <;> simp_all

lemma dirs_running (k : Kernel) (e : ℕ) : (k.running e).dirs = k.dirs := by
  funext e'
  obtain ⟨hs, hd, -⟩ := running_fields k e e'
  rw [Kernel.dirs, Kernel.dirs, hs, hd]

lemma KInv.running (h : KInv T k) (hrun : (k.envs e).envStatus = .runnable) :
    KInv T (k.running e) := by
  refine ⟨?_, h.base_eq, ?_, h.free_nodup, fun e' he' => ?_, fun e' => ?_⟩
  · rw [dirs_running]
    exact h.pages
  · rintro e' ⟨⟩
    rw [dirs_running]
    exact ⟨_, dirs_of_ne_free (by simp [hrun]), rfl⟩
  · rw [(running_fields k e e').1]
    exact h.free_free e' he'
  · rw [(running_fields k e e').2.2]
    exact h.dstva e'

lemma keeps_envRun (e : ℕ) : Keeps T (envRun e : KernelM α) := by
  intro k h
  rw [wp_envRun]
  exact ⟨h.running, fun _ => by decide⟩

lemma keeps_requeueCur : Keeps T requeueCur := by
  refine Keeps.get_bind fun k h => ?_
  cases k.curenv with
  | none => exact h
  | some c =>
      exact (((Keeps.onSchedList _).bind fun _ => Keeps.onSchedList _).ite (Keeps.pure ())) k h

lemma keeps_pickEnv : Keeps T pickEnv := by
  refine keeps_requeueCur.bind fun _ => Keeps.get_bind fun k h => ?_
  cases k.envSchedList.first with
  | none => exact (by decide : Panic.NotRef .noRunnable)
  | some e => exact h.of_eq rfl rfl rfl rfl rfl rfl

lemma keeps_schedule (yield : Bool) : Keeps T (schedule yield : KernelM α) := by
  have hnext : Keeps T (nextEnv yield) :=
    Keeps.get_bind fun k h => (keeps_pickEnv.ite Keeps.getCurenv) k h
  refine hnext.bind fun e => Keeps.bind (Keeps.modify ?_) fun _ => keeps_envRun e
  exact fun k h => h.of_eq rfl rfl rfl rfl rfl rfl

/-! ## Creation -/

section Creation

variable {pp : ℕ} {rest prest : List ℕ} {parentId : Word} {i : ℕ}

lemma setupVm_mem_of_ne {f : ℕ} (hf : f ≠ pp) : (k.setupVm pp prest).mem f = k.pm.mem f := by
  funext j
  simp only [Kernel.setupVm, Pmap.copyWords, hf, false_and, if_false, Pmap.addRef_mem]
  rw [Pmap.take_mem_of_ne _ _ hf]

/-- The entries of a new directory: the template's in `[UTOP, UVPT)` and from `ULIM` on, else
zero. -/
lemma setupVm_mem_self (hne : k.basePgdir ≠ pp) (hi : i < 1024) :
    (k.setupVm pp prest).mem pp i =
      if i < PDX UTOP ∨ i = PDX UVPT then 0#32 else k.pm.mem k.basePgdir i := by
  have hbase : (k.pm.take pp prest).mem k.basePgdir = k.pm.mem k.basePgdir :=
    Pmap.take_mem_of_ne _ _ hne
  simp only [Kernel.setupVm, Pmap.copyWords, hne, false_and, if_false, true_and, Pmap.addRef_mem,
    Pmap.take_mem_self, hbase, PDX_UTOP, PDX_UVPT, show PDX KSEG0 = 512 by decide]
  split_ifs <;> first | rfl | omega

/-- The new directory, before an env is live in it, is a page that leaks. -/
lemma KInv.pages_setupVm (h : KInv T k) (hT : T.strict = false)
    (hf : k.pm.pageFreeList = pp :: prest) :
    Pages T (NENV + 1) k.dirs (k.setupVm pp prest) := by
  obtain ⟨hpool, hnot, hunref, -⟩ := h.pages.fresh hf
  have h₁ := (h.pages.take hf).addRef_unref hT hunref hnot
  refine h₁.scribble rfl rfl rfl fun f hne => ?_
  have hfp : f = pp := by
    by_contra hc
    apply hne
    rw [setupVm_mem_of_ne hc, Pmap.addRef_mem, Pmap.take_mem_of_ne _ _ hc]
  subst hfp
  exact ⟨hpool, fun ⟨s, _, hs⟩ => hunref s hs⟩

/-- … and with an env, it is that env's. -/
lemma KInv.pages_newDir (h : KInv T k) (hf : k.pm.pageFreeList = pp :: prest)
    (hl : k.envFreeList = e :: rest) :
    Pages T (NENV + 1) (Function.update k.dirs e (some pp)) (k.setupVm pp prest) := by
  obtain ⟨hfree, hle⟩ := h.free_free e (by simp [hl])
  have hpool := (h.pages.fresh hf).1
  have hbase : k.basePgdir ≠ pp := by
    rw [h.base_eq]
    exact fun hc => T.base_notMem (hc ▸ hpool)
  refine h.pages.newDir (if_pos hfree) (by omega) hf rfl rfl rfl
    (fun f hfp => setupVm_mem_of_ne hfp)
    (fun i hi => ?_) fun i hi ho => ?_
  · rw [setupVm_mem_self hbase (own_lt hi), if_pos]
    rw [Template.own, decide_eq_true_iff] at hi
    exact hi.imp_right And.right
  · rw [setupVm_mem_self hbase hi, h.base_eq, h.pages.fixed _ T.base_notMem, Template.entry]

/-- A change of a free env that leaves it free. -/
lemma KInv.updateFree (h : KInv T k) {v : Env} (hs : (k.envs e).envStatus = .free)
    (hv : v.envStatus = .free) (hva : v.envIpcDstva < UTOP) :
    KInv T { k with envs := Function.update k.envs e v } := by
  have hdirs : Kernel.dirs { k with envs := Function.update k.envs e v } = k.dirs := by
    funext e'
    by_cases hee : e' = e
    · subst hee
      simp [Kernel.dirs, hs, hv]
    · simp only [Kernel.dirs, Function.update_of_ne hee]
  refine ⟨hdirs ▸ h.pages, h.base_eq, fun e' he' => hdirs ▸ h.cur e' he', h.free_nodup, ?_, ?_⟩
  · intro e' he'
    refine ⟨?_, (h.free_free e' he').2⟩
    by_cases hee : e' = e
    · simp [hee, hv]
    · simpa [hee] using (h.free_free e' he').1
  · intro e'
    by_cases hee : e' = e
    · subst hee
      simpa using hva
    · simpa [hee] using h.dstva e'

lemma KInv.prepared (h : KInv T k) (hT : T.strict = false) (hl : k.envFreeList = e :: rest)
    (hf : k.pm.pageFreeList = pp :: prest) : KInv T (k.prepared e pp prest parentId) := by
  have hfree := (h.free_free e (by simp [hl])).1
  have h₁ := h.setPm (h.pages_setupVm hT hf)
  have h₂ := h₁.updateFree (e := e) (v := { k.envs e with
    envPgdir := pp, envUserTlbModEntry := 0#32, envRuns := 0#32, envParentId := parentId
    envId := k.nextId e }) hfree hfree (h.dstva e)
  exact h₂.of_eq rfl rfl rfl rfl rfl rfl

/-- **An env comes to life**: `e` was allocated and has been made runnable or not runnable. -/
lemma KInv.born (h : KInv T k) (hl : k.envFreeList = e :: rest)
    (hf : k.pm.pageFreeList = pp :: prest) {v : Env} (hd : v.envPgdir = pp)
    (hs : v.envStatus ≠ .free) (hva : v.envIpcDstva < UTOP) (hpm : k'.pm = k.setupVm pp prest)
    (henvs : k'.envs = Function.update k.envs e v) (hbase : k'.basePgdir = k.basePgdir)
    (hcur : k'.curenv = k.curenv) (hdir : k'.curPgdir = k.curPgdir)
    (hrest : k'.envFreeList = rest) :
    KInv T k' := by
  have hfree := (h.free_free e (by simp [hl])).1
  have hdirs : k'.dirs = Function.update k.dirs e (some pp) := by
    funext e'
    rw [Kernel.dirs, henvs]
    by_cases hee : e' = e
    · subst hee
      simp [hs, hd]
    · simp [hee, Kernel.dirs]
  have hnd := h.free_nodup
  rw [hl] at hnd
  obtain ⟨hnot, hnd⟩ := List.nodup_cons.mp hnd
  refine ⟨?_, hbase.trans h.base_eq, ?_, hrest ▸ hnd, ?_, ?_⟩
  · rw [hpm, hdirs]
    exact h.pages_newDir hf hl
  · intro c hc
    rw [hcur] at hc
    obtain ⟨d, hd, hcd⟩ := h.cur c hc
    have hce : c ≠ e := by
      rintro rfl
      exact (dirs_eq_some.mp hd).1 hfree
    exact ⟨d, by rw [hdirs, Function.update_of_ne hce, hd], hdir.trans hcd⟩
  · intro e' he'
    rw [hrest] at he'
    have hee : e' ≠ e := fun hc => hnot (hc ▸ he')
    rw [henvs, Function.update_of_ne hee]
    exact h.free_free e' (by simp [hl, he'])
  · intro e'
    rw [henvs]
    by_cases hee : e' = e
    · subst hee
      simpa using hva
    · simpa [hee] using h.dstva e'

/-- `asid_alloc` finds a free ASID. -/
def Kernel.HasAsid (k : Kernel) : Prop :=
  ((List.range NASID).find? fun i => !asidUsed k.asidBitmap i) ≠ none

/-- Where `env_alloc` runs out of ASIDs, the page directory it took leaks. -/
lemma KInv.wp_sysExofork (h : KInv T k) (hT : T.strict = true → k.HasAsid) :
    Prog.wp sysExofork k (fun _ k' => KInv T k') (fun _ k' => KInv T k') Panic.NotRef := by
  rw [sysExofork, Prog.wp_bind, wp_getCurenv]
  refine ⟨fun c hc => ?_, fun _ => by decide⟩
  rw [Prog.wp_bind, Prog.wp_get, Prog.wp_bind, wp_envAlloc]
  cases hl : k.envFreeList with
  | nil => exact h
  | cons e rest =>
      cases hf : k.pm.pageFreeList with
      | nil => exact h
      | cons pp prest =>
          cases hi : (List.range NASID).find? fun i => !asidUsed k.asidBitmap i with
          | none => exact h.prepared (by simpa using fun hc => hT hc hi) hl hf
          | some i =>
              simp only [Prog.wp_bind, Prog.wp_get, wp_modifyEnv, Prog.wp_pure,
                Function.update_self,
                Function.update_idem, Kernel.allocated]
              refine h.born hl hf ?_ ?_ ?_ rfl rfl rfl rfl rfl rfl
              · rfl
              · simp
              · exact h.dstva e

end Creation

/-! ## Destruction -/

/-- **`env_free`**: the address space is given back and the slot is free. -/
lemma KInv.wp_envFree (h : KInv T k) (he : k.dirs e = some d) :
    Prog.wp (envFree e) k
      (fun _ k' => ∃ m q bitmap, Pages T (NENV + 1) (Function.update k.dirs e none) m ∧
        (TailQueue.Op.remove e).apply k.envSchedList = some q ∧
        k' = { k with
          pm := m
          envs := Function.update k.envs e { k.envs e with envStatus := .free }
          envFreeList := e :: k.envFreeList, envSchedList := q, asidBitmap := bitmap })
      (fun _ _ => False) (fun p => p = .nullLink ∨ p = .listMisuse) := by
  obtain ⟨-, hd⟩ := dirs_eq_some.mp he
  rw [envFree, Prog.wp_bind, Prog.wp_get, Prog.wp_bind, wp_liftPm, hd]
  refine (h.pages.wp_envFree_pages _ he).mono ?_ (fun _ _ hf => hf) fun _ hp => hp.elim
  rintro - m ⟨hm, -⟩
  simp only [Prog.wp_bind, asidFree, Prog.wp_modify, wp_modifyEnv]
  exact wp_onSchedList (.inl rfl) (.inr rfl) fun q hq => ⟨m, q, _, hm, hq, rfl⟩

/-- The state after `env_free`, once `curenv` does not point at the freed env. -/
lemma KInv.freed (h : KInv T k) (he : k.dirs e = some d) {m : Pmap}
    (hm : Pages T (NENV + 1) (Function.update k.dirs e none) m) (hpm : k'.pm = m)
    (henvs : k'.envs = Function.update k.envs e { k.envs e with envStatus := .free })
    (hbase : k'.basePgdir = k.basePgdir) (hfree : k'.envFreeList = e :: k.envFreeList)
    (hcur : ∀ c, k'.curenv = some c → k.curenv = some c ∧ c ≠ e)
    (hdir : k'.curPgdir = k.curPgdir) : KInv T k' := by
  obtain ⟨hlive, -⟩ := dirs_eq_some.mp he
  have hdirs : k'.dirs = Function.update k.dirs e none := by
    funext e'
    rw [Kernel.dirs, henvs]
    by_cases hee : e' = e
    · subst hee
      simp
    · simp [hee, Kernel.dirs]
  refine ⟨by rw [hpm, hdirs]; exact hm, hbase.trans h.base_eq, ?_, ?_, ?_, ?_⟩
  · intro c hc
    obtain ⟨hc, hne⟩ := hcur c hc
    obtain ⟨d', hd', hcd⟩ := h.cur c hc
    exact ⟨d', by rw [hdirs, Function.update_of_ne hne, hd'], hdir.trans hcd⟩
  · rw [hfree, List.nodup_cons]
    exact ⟨fun hmem => hlive (h.free_free e hmem).1, h.free_nodup⟩
  · intro e' he'
    rw [henvs]
    rw [hfree, List.mem_cons] at he'
    by_cases hee : e' = e
    · subst hee
      have := h.pages.live_lt e' d he
      simp
      omega
    · rw [Function.update_of_ne hee]
      exact h.free_free e' (he'.resolve_left hee)
  · intro e'
    rw [henvs]
    by_cases hee : e' = e
    · subst hee
      simpa using h.dstva e'
    · simpa [hee] using h.dstva e'

lemma KInv.wp_envDestroy (h : KInv T k) (he : k.dirs e = some d) :
    Prog.wp (envDestroy e) k (fun _ k' => KInv T k') (fun _ k' => KInv T k') Panic.NotRef := by
  rw [envDestroy, Prog.wp_bind]
  refine (h.wp_envFree he).mono ?_ (fun _ _ hf => hf.elim) ?_
  · rintro - k₁ ⟨m, q, bitmap, hm, -, rfl⟩
    rw [Prog.wp_bind, Prog.wp_get, Prog.wp_ite, Prog.wp_pure, Prog.wp_bind, Prog.wp_modify]
    refine ⟨fun _ => keeps_schedule true _ ?_, fun hne => ?_⟩
    · exact h.freed he hm rfl rfl rfl rfl (by simp) rfl
    · refine h.freed he hm rfl rfl rfl rfl (fun c hc => ⟨hc, ?_⟩) rfl
      rintro rfl
      exact hne hc
  · rintro p (rfl | rfl) <;> decide

lemma keeps_sysEnvDestroy (envid : Word) : Keeps T (sysEnvDestroy envid) := by
  intro k h
  rw [sysEnvDestroy, Prog.wp_bind]
  refine (h.wp_envid2env envid true).mono ?_ ?_ ?_
  · rintro e k' ⟨rfl, he, -⟩
    rw [Prog.wp_bind]
    exact (h.wp_envDestroy he).mono (fun _ _ h' => h') (fun _ _ h' => h') fun _ hp => hp
  · rintro c k' ⟨-, rfl⟩
    exact h
  · rintro p rfl
    decide

/-! ## The mapping calls -/

/-- The page found at `va` in the address space of `e`. -/
def Kernel.pageAt (k : Kernel) (e : ℕ) (va : Word) : Option ℕ :=
  (k.pm.entryAt (k.envs e).envPgdir va).map pteFrame

/-- The page that a mapping call is about to map, and the permission it was given. -/
def Syscall.mapped (k : Kernel) : Syscall → Option (ℕ × Word)
  | .memAlloc _ _ perm => k.pm.pageFreeList.head?.map fun pp => (pp, perm)
  | .memMap srcid srcva _ _ perm =>
      (k.envOf srcid).bind fun e => (k.pageAt e srcva).map fun pp => (pp, perm)
  | .ipcTrySend _ _ srcva perm =>
      if srcva = 0#32 then none
      else k.curenv.bind fun c => (k.pageAt c srcva).map fun pp => (pp, perm)
  | _ => none

/-- A mapping call is admissible when its permission fits the page and the page can be counted
once more. -/
def Syscall.Admissible (k : Kernel) (c : Syscall) : Prop :=
  ∀ pp perm, c.mapped k = some (pp, perm) → Fits perm pp ∧ k.refCount pp < 65535

/-- The references are a matter of the directories and the pages. -/
lemma refCount_congr (hd : k.dirs = k'.dirs) (hm : k.pm = k'.pm) : k.refCount = k'.refCount := by
  have href : k.reference = k'.reference := by
    funext s
    cases s <;> simp only [Kernel.reference, hd, hm]
  funext p
  rw [Kernel.refCount, Kernel.refCount, href]

lemma isIllegalVa_eq_false {va : Word} (h : ¬ isIllegalVa va = true) : va < UTOP := by
  simp only [isIllegalVa, decide_eq_true_iff, not_or] at h
  exact BitVec.not_le.mp h.2

lemma fits_or_PTE_U {perm : Word} {pp : ℕ} : Fits (perm ||| PTE_U) pp ↔ Fits perm pp := by
  rw [fits_or]
  exact and_iff_left (fits_of_lt (by decide) pp)

/-- A page mapped below `UTOP`, as `page_lookup` reports it. -/
lemma pageAt_eq {va : Word} {pp : ℕ} (hva : va < UTOP) (he : k.dirs e = some (k.envs e).envPgdir)
    (h : target T.own k.dirs k.pm (.pte e (PDX va) (PTX va)) = some pp) :
    k.pageAt e va = some pp := by
  rw [Kernel.pageAt, entryAt_eq_slotWord (own_of_lt_UTOP hva) he]
  exact h

/-- `pp` is mapped somewhere below `UTOP`. -/
def Template.Shares (T : Template) (k : Kernel) (pp : ℕ) : Prop :=
  ∃ e va, va < UTOP ∧ target T.own k.dirs k.pm (.pte e (PDX va) (PTX va)) = some pp

/-- Mapping a page that is mapped already, or is fresh: the invariant. -/
lemma KInv.insertShared (h : KInv T k) {e' d' pp : ℕ} {va perm : Word} (hsh : T.Shares k pp)
    (hdst : k.dirs e' = some d') (hva : va < UTOP) (hfits : Fits perm pp)
    (hrefs : k.refCount pp < 65535) {m : Pmap}
    (hcase : InsertCase k.pm d' pp va (perm ||| PTE_U) m) : KInv T { k with pm := m } := by
  obtain ⟨e, srcva, hsrc, htgt⟩ := hsh
  have hne : ∀ {x : Word}, x < UTOP → PDX x ≠ PDX UVPT := by
    intro x hx
    have := (lt_UTOP_iff x).mp hx
    rw [PDX_UTOP] at this
    rw [PDX_UVPT]
    omega
  have hcnt := h.pages.counted.cnt_of_tgt htgt
  refine h.setPm (h.pages.insert hdst (own_of_lt_UTOP hva) (h.pages.counted.tgt_pool _ _ htgt)
    (fits_or_PTE_U.mpr hfits) (h.pages.counted.notMem_free_of_tgt htgt) hcnt
    (hcnt ▸ h.refs_lt hrefs) ?_ (fun hc => absurd hc (hne hva)) hcase)
  intro s hs hst
  have := h.pages.counted.unique s _ pp hs hst htgt
  rw [← this] at hs
  exact hne hsrc hs

/-- **What `sys_mem_alloc` does**, whatever the permission. -/
lemma KInv.wp_sysMemAlloc_cases (h : KInv T k) (envid va perm : Word) :
    Prog.wp (sysMemAlloc envid va perm) k
      (fun r k' => r = 0#32 ∧ va < UTOP ∧ ∃ e pp rest m, k.dirs e = some (k.envs e).envPgdir ∧
        k.envOf envid = some e ∧ k.pm.pageFreeList = pp :: rest ∧
        InsertCase (k.pm.take pp rest) (k.envs e).envPgdir pp va (perm ||| PTE_U) m ∧
        k' = { k with pm := m })
      (fun c k' => (∃ err, c = .code err) ∧ (k' = k ∨ ∃ pp, k.pm.pageFreeList = [pp] ∧
        k' = { k with pm := k.pm.take pp [] }))
      (fun p => p = .nullCurenv) := by
  rw [sysMemAlloc, Prog.wp_ite, Prog.wp_exit]
  refine ⟨fun _ => ⟨⟨_, rfl⟩, .inl rfl⟩, fun hva => ?_⟩
  have hva := isIllegalVa_eq_false hva
  rw [Prog.wp_bind]
  refine (h.wp_envid2env envid true).mono ?_ (fun c k' hk => ⟨⟨_, hk.1⟩, .inl hk.2⟩)
    fun _ hp => hp
  rintro e k' ⟨rfl, he, hid⟩
  rw [Prog.wp_bind, wp_liftPm]
  cases hf : k'.pm.pageFreeList with
  | nil =>
      rw [wp_pageAlloc_nil hf]
      exact ⟨⟨_, rfl⟩, .inl rfl⟩
  | cons pp rest =>
      rw [wp_pageAlloc_cons hf, Prog.wp_bind, Prog.wp_get, Prog.wp_bind, wp_liftPm]
      refine ((h.pages.take hf).wp_pageInsert_cases _ _ he (lt_ULIM_of_lt_UTOP hva)
        (own_of_lt_UTOP hva) (h.pages.fresh hf).1).mono ?_ ?_ fun _ hp => hp.elim
      · exact fun _ m hcase => ⟨rfl, hva, e, pp, rest, m, he, hid, rfl, hcase, rfl⟩
      · rintro c m ⟨hc, rfl, hrest⟩
        obtain rfl : rest = [] := hrest
        exact ⟨⟨_, hc⟩, .inr ⟨pp, rfl, rfl⟩⟩

/-- **What `sys_mem_map` does**, whatever the permission. -/
lemma KInv.wp_sysMemMap_cases (h : KInv T k) (srcid srcva dstid dstva perm : Word) :
    Prog.wp (sysMemMap srcid srcva dstid dstva perm) k
      (fun r k' => r = 0#32 ∧ dstva < UTOP ∧ ∃ e e' pp m,
        k.envOf srcid = some e ∧ k.pageAt e srcva = some pp ∧ T.Shares k pp ∧
        k.envOf dstid = some e' ∧ k.dirs e' = some (k.envs e').envPgdir ∧
        InsertCase k.pm (k.envs e').envPgdir pp dstva (perm ||| PTE_U) m ∧ k' = { k with pm := m })
      (fun c k' => (∃ err, c = .code err) ∧ k' = k) (fun p => p = .nullCurenv) := by
  rw [sysMemMap, Prog.wp_ite, Prog.wp_exit]
  refine ⟨fun _ => ⟨⟨_, rfl⟩, rfl⟩, fun hva => ?_⟩
  rw [not_or] at hva
  have hsrc := isIllegalVa_eq_false hva.1
  have hdst := isIllegalVa_eq_false hva.2
  rw [Prog.wp_bind]
  refine (h.wp_envid2env srcid true).mono ?_ (fun c k' hk => ⟨⟨_, hk.1⟩, hk.2⟩) fun _ hp => hp
  rintro e k' ⟨rfl, he, hid⟩
  rw [Prog.wp_bind]
  refine (h.wp_envid2env dstid true).mono ?_ (fun c k' hk => ⟨⟨_, hk.1⟩, hk.2⟩) fun _ hp => hp
  rintro e' k' ⟨rfl, he', hid'⟩
  rw [Prog.wp_bind, Prog.wp_get, Prog.wp_bind, wp_liftPm]
  refine (h.pages.wp_pageLookup he (own_of_lt_UTOP hsrc)).mono ?_ (fun _ _ hf => hf.elim)
    fun _ hp => hp.elim
  rintro r m ⟨rfl, hr⟩
  cases r with
  | none => exact ⟨⟨_, rfl⟩, rfl⟩
  | some r =>
      obtain ⟨pp, t, j⟩ := r
      have htgt := hr pp t j rfl
      rw [Prog.wp_bind, wp_liftPm]
      refine (h.pages.wp_pageInsert_cases _ _ he' (lt_ULIM_of_lt_UTOP hdst) (own_of_lt_UTOP hdst)
        (h.pages.counted.tgt_pool _ _ htgt)).mono ?_ ?_ fun _ hp => hp.elim
      · exact fun _ m hcase => ⟨rfl, hdst, e, e', pp, m, hid, pageAt_eq hsrc he htgt,
          ⟨e, srcva, hsrc, htgt⟩, hid', he', hcase, rfl⟩
      · rintro c m ⟨hc, rfl, -⟩
        exact ⟨⟨_, hc⟩, rfl⟩

lemma KInv.wp_sysMemAlloc (h : KInv T k) {envid va perm : Word}
    (ha : (Syscall.memAlloc envid va perm).Admissible k) :
    Prog.wp (sysMemAlloc envid va perm) k (fun _ k' => KInv T k') (fun _ k' => KInv T k')
      Panic.NotRef := by
  refine (h.wp_sysMemAlloc_cases envid va perm).mono ?_ ?_ (by rintro p rfl; decide)
  · rintro r - ⟨-, hva, e, pp, rest, m, he, -, hf, hcase, rfl⟩
    have hfits := (ha pp perm (by simp [Syscall.mapped, hf])).1
    exact h.setPm (h.pages.insertFresh hf he (own_of_lt_UTOP hva) (fits_or_PTE_U.mpr hfits) hcase)
  · rintro c k' ⟨-, hk | ⟨pp, hf, rfl⟩⟩
    · exact hk ▸ h
    · exact h.setPm (h.pages.take hf)

lemma KInv.wp_sysMemMap (h : KInv T k) {srcid srcva dstid dstva perm : Word}
    (ha : (Syscall.memMap srcid srcva dstid dstva perm).Admissible k) :
    Prog.wp (sysMemMap srcid srcva dstid dstva perm) k (fun _ k' => KInv T k')
      (fun _ k' => KInv T k') Panic.NotRef := by
  refine (h.wp_sysMemMap_cases srcid srcva dstid dstva perm).mono ?_ (fun c k' hk => hk.2 ▸ h)
    (by rintro p rfl; decide)
  rintro r - ⟨-, hdst, e, e', pp, m, hid, hpp, hsh, -, he', hcase, rfl⟩
  obtain ⟨hfits, hrefs⟩ := ha pp perm (by simp [Syscall.mapped, hid, hpp])
  exact h.insertShared hsh he' hdst hfits hrefs hcase

/-- The state in which `sys_ipc_try_send` has woken the receiver `e`. -/
def Kernel.woken (k : Kernel) (c e : ℕ) (value perm : Word) (q : TailQueue.Queue ℕ) : Kernel :=
  { k with
    envs := Function.update k.envs e { k.envs e with
      envIpcValue := value, envIpcFrom := (k.envs c).envId
      envIpcPerm := PTE_U ||| PTE_R ||| PTE_V ||| perm, envIpcRecving := 0#32
      envStatus := .runnable }
    envSchedList := q }

lemma dirs_woken {c : ℕ} {value perm : Word} {q : TailQueue.Queue ℕ}
    (he : k.dirs e = some (k.envs e).envPgdir) : (k.woken c e value perm q).dirs = k.dirs := by
  funext e'
  by_cases hee : e' = e
  · subst hee
    rw [he]
    simp [Kernel.dirs, Kernel.woken]
  · simp [Kernel.dirs, Kernel.woken, hee]

lemma KInv.woken (h : KInv T k) {c : ℕ} {value perm : Word} {q : TailQueue.Queue ℕ}
    (he : k.dirs e = some (k.envs e).envPgdir) : KInv T (k.woken c e value perm q) := by
  have hlive := (dirs_eq_some.mp he).1
  have h₁ := h.updateEnv e (v := { k.envs e with
    envIpcValue := value, envIpcFrom := (k.envs c).envId
    envIpcPerm := PTE_U ||| PTE_R ||| PTE_V ||| perm, envIpcRecving := 0#32
    envStatus := .runnable }) (by simp [hlive]) rfl (h.dstva e)
  exact h₁.of_eq rfl rfl rfl rfl rfl rfl

lemma woken_fields (k : Kernel) (c e : ℕ) (value perm : Word) (q : TailQueue.Queue ℕ) (e' : ℕ) :
    ((k.woken c e value perm q).envs e').envPgdir = (k.envs e').envPgdir ∧
      ((k.woken c e value perm q).envs e').envIpcDstva = (k.envs e').envIpcDstva ∧
      ((k.woken c e value perm q).envs e').envAsid = (k.envs e').envAsid := by
  by_cases hee : e' = e
  · subst hee
    simp [Kernel.woken]
  · simp [Kernel.woken, hee]

/-- **What `sys_ipc_try_send` does**, whatever the permission.  A send that fails late has woken the
receiver all the same. -/
lemma KInv.wp_sysIpcTrySend_cases (h : KInv T k) (envid value srcva perm : Word) :
    Prog.wp (sysIpcTrySend envid value srcva perm) k
      (fun r k' => r = 0#32 ∧ ∃ c e q, k.curenv = some c ∧ k.envOf envid = some e ∧
        k.dirs e = some (k.envs e).envPgdir ∧ (k.envs e).envIpcRecving ≠ 0#32 ∧
        (TailQueue.Op.insertTail e).apply k.envSchedList = some q ∧
        ((srcva = 0#32 ∧ k' = k.woken c e value perm q) ∨
          (srcva ≠ 0#32 ∧ ∃ pp m, k.pageAt c srcva = some pp ∧ T.Shares k pp ∧
            InsertCase k.pm (k.envs e).envPgdir pp (k.envs e).envIpcDstva (perm ||| PTE_U) m ∧
            k' = { k.woken c e value perm q with pm := m })))
      (fun x k' => (∃ err, x = .code err) ∧ (k' = k ∨ ∃ c e q, k.curenv = some c ∧
        k.envOf envid = some e ∧ k.dirs e = some (k.envs e).envPgdir ∧
        (k.envs e).envIpcRecving ≠ 0#32 ∧ srcva ≠ 0#32 ∧
        (TailQueue.Op.insertTail e).apply k.envSchedList = some q ∧
        k' = k.woken c e value perm q))
      (fun p => p = .nullCurenv ∨ p = .nullLink ∨ p = .listMisuse) := by
  rw [sysIpcTrySend, Prog.wp_ite, Prog.wp_exit]
  refine ⟨fun _ => ⟨⟨_, rfl⟩, .inl rfl⟩, fun hva => ?_⟩
  rw [Prog.wp_bind]
  refine (h.wp_envid2env envid false).mono ?_ (fun c k' hk => ⟨⟨_, hk.1⟩, .inl hk.2⟩)
    fun _ hp => .inl hp
  rintro e k' ⟨rfl, he, hid⟩
  rw [Prog.wp_bind, Prog.wp_get, Prog.wp_ite, Prog.wp_exit]
  refine ⟨fun _ => ⟨⟨_, rfl⟩, .inl rfl⟩, fun hrecv => ?_⟩
  rw [Prog.wp_bind, wp_getCurenv]
  refine ⟨fun c hc => ?_, fun _ => .inl rfl⟩
  rw [Prog.wp_bind, wp_modifyEnv, Prog.wp_bind]
  refine wp_onSchedList (.inr (.inl rfl)) (.inr (.inr rfl)) fun q hq => ?_
  change Prog.wp _ (k'.woken c e value perm q) _ _ _
  rw [Prog.wp_ite, Prog.wp_pure]
  refine ⟨fun hne => ?_, fun h0 => ⟨rfl, c, e, q, hc, hid, he, hrecv, hq,
    .inl ⟨not_not.mp h0, rfl⟩⟩⟩
  have hsrc : srcva < UTOP := isIllegalVa_eq_false fun hc => hva ⟨hne, hc⟩
  obtain ⟨dc, hdc, -⟩ := h.cur c hc
  have hdc' : k'.dirs c = some (k'.envs c).envPgdir := dirs_of_ne_free (dirs_eq_some.mp hdc).1
  have h₂ : KInv T (k'.woken c e value perm q) := h.woken he
  obtain ⟨hpg, -⟩ := woken_fields k' c e value perm q c
  obtain ⟨hpg', hdst, hasid⟩ := woken_fields k' c e value perm q e
  rw [sendPage, Prog.wp_bind, Prog.wp_get, Prog.wp_bind, wp_liftPm, hpg]
  have hfail : (∃ err : Err, Exit.code .inval = .code err) ∧
      (k'.woken c e value perm q = k' ∨ ∃ c' e' q', k'.curenv = some c' ∧ k'.envOf envid = some e' ∧
        k'.dirs e' = some (k'.envs e').envPgdir ∧ (k'.envs e').envIpcRecving ≠ 0#32 ∧
        srcva ≠ 0#32 ∧ (TailQueue.Op.insertTail e').apply k'.envSchedList = some q' ∧
        k'.woken c e value perm q = k'.woken c' e' value perm q') :=
    ⟨⟨_, rfl⟩, .inr ⟨c, e, q, hc, hid, he, hrecv, hne, hq, rfl⟩⟩
  refine (h.pages.wp_pageLookup hdc' (own_of_lt_UTOP hsrc)).mono ?_ (fun _ _ hf => hf.elim)
    fun _ hp => hp.elim
  rintro r m ⟨rfl, hr⟩
  cases r with
  | none => exact hfail
  | some r =>
      obtain ⟨pp, t, j⟩ := r
      have htgt := hr pp t j rfl
      have hlt := h.dstva e
      rw [Prog.wp_bind, wp_liftPm, hpg', hdst, hasid]
      refine (h.pages.wp_pageInsert_cases _ _ he (lt_ULIM_of_lt_UTOP hlt) (own_of_lt_UTOP hlt)
        (h.pages.counted.tgt_pool _ _ htgt)).mono ?_ ?_ fun _ hp => hp.elim
      · exact fun _ m hcase => ⟨rfl, c, e, q, hc, hid, he, hrecv, hq, .inr ⟨hne, pp, m,
          pageAt_eq hsrc hdc' htgt, ⟨c, srcva, hsrc, htgt⟩, hcase, rfl⟩⟩
      · rintro x m ⟨rfl, rfl, -⟩
        exact ⟨⟨_, rfl⟩, hfail.2⟩

lemma KInv.wp_sysIpcTrySend (h : KInv T k) {envid value srcva perm : Word}
    (ha : (Syscall.ipcTrySend envid value srcva perm).Admissible k) :
    Prog.wp (sysIpcTrySend envid value srcva perm) k (fun _ k' => KInv T k')
      (fun _ k' => KInv T k') Panic.NotRef := by
  refine (h.wp_sysIpcTrySend_cases envid value srcva perm).mono ?_ ?_
    (by rintro p (rfl | rfl | rfl) <;> decide)
  · rintro r - ⟨-, c, e, q, hc, hid, he, -, -, ⟨-, rfl⟩ | ⟨hne, pp, m, hpp, hsh, hcase, rfl⟩⟩
    · exact h.woken he
    · obtain ⟨hfits, hrefs⟩ := ha pp perm (by simp [Syscall.mapped, hne, hc, hpp])
      have h₂ : KInv T (k.woken c e value perm q) := h.woken he
      have hd : (k.woken c e value perm q).dirs = k.dirs := dirs_woken he
      have hsh' : T.Shares (k.woken c e value perm q) pp := by
        rw [Template.Shares, hd]
        exact hsh
      have hrefs' : (k.woken c e value perm q).refCount pp < 65535 := by
        rw [refCount_congr hd rfl]
        exact hrefs
      exact h₂.insertShared hsh' (hd ▸ he) (h.dstva e) hfits hrefs' hcase
  · rintro x k' ⟨-, hk | ⟨c, e, q, -, -, he, -, -, -, rfl⟩⟩
    · exact hk ▸ h
    · exact h.woken he

/-! ## The other calls -/

lemma KeepsCur.keeps {x : KernelM α} (hx : KeepsCur T x) (h : KInv T k) (hc : k.curenv = some e) :
    Prog.wp x k (fun _ k' => KInv T k') (fun _ k' => KInv T k') Panic.NotRef :=
  (hx k e h hc).mono (fun _ _ h' => h'.1) (fun _ _ hf => hf.elim) fun _ hp => hp

lemma keeps_printcharc (c : Word) : Keeps T (printcharc c) :=
  Keeps.modify fun _ h => h.of_eq rfl rfl rfl rfl rfl rfl

lemma keeps_voidResult : Keeps T voidResult := Keeps.get_bind fun _ h => h

/-- A call that first resolves an id. -/
lemma keeps_envid2env_bind (envid : Word) {f : ℕ → KernelM β}
    (hf : ∀ k e, KInv T k → k.dirs e = some (k.envs e).envPgdir →
      Prog.wp (f e) k (fun _ k' => KInv T k') (fun _ k' => KInv T k') Panic.NotRef) :
    Keeps T (envid2env envid true >>= f) := by
  intro k h
  rw [Prog.wp_bind]
  refine (h.wp_envid2env envid true).mono ?_ (fun c k' hk => hk.2 ▸ h) (by rintro p rfl; decide)
  rintro e k' ⟨rfl, he, -⟩
  exact hf k' e h he

lemma KInv.wp_sysPrintCons (h : KInv T k) (hc : k.curenv = some e) (s num : Word) :
    Prog.wp (sysPrintCons s num) k (fun _ k' => KInv T k') (fun _ k' => KInv T k')
      Panic.NotRef := by
  rw [sysPrintCons, Prog.wp_ite, Prog.wp_exit]
  refine ⟨fun _ => h, fun _ => KeepsCur.keeps ?_ h hc⟩
  refine KeepsCur.bind (KeepsCur.forRange fun i _ _ => ?_) fun _ => KeepsCur.pure _
  refine (keepsCur_loadByte _).bind fun b => fun k e h hc => ?_
  exact ⟨h.of_eq rfl rfl rfl rfl rfl rfl, hc⟩

lemma keeps_sysMemUnmap (envid va : Word) : Keeps T (sysMemUnmap envid va) := by
  intro k h
  rw [sysMemUnmap, Prog.wp_ite, Prog.wp_exit]
  refine ⟨fun _ => h, fun hva => keeps_envid2env_bind envid (fun k e h he => ?_) k h⟩
  have ho := own_of_lt_UTOP (T := T) (isIllegalVa_eq_false hva)
  rw [Prog.wp_bind, Prog.wp_get, Prog.wp_bind, wp_liftPm]
  exact (h.pages.wp_pageRemove _ he ho).mono (fun _ m hm => h.setPm hm.2) (fun _ _ hf => hf.elim)
    fun _ hp => hp.elim

lemma keeps_sysSetTlbModEntry (envid func : Word) : Keeps T (sysSetTlbModEntry envid func) :=
  keeps_envid2env_bind envid fun _ e h _ => h.updateEnv e Iff.rfl rfl (h.dstva e)

lemma keeps_setEnvStatus (envid : Word) {status : EnvStatus} (hs : status ≠ .free) :
    Keeps T (setEnvStatus envid status) := by
  refine keeps_envid2env_bind envid fun k e h he => ?_
  have hlive := (dirs_eq_some.mp he).1
  rw [Prog.wp_bind, updateSchedList, Prog.wp_bind, Prog.wp_get]
  have hset : ∀ q, KInv T { k with
      envSchedList := q
      envs := Function.update k.envs e { k.envs e with envStatus := status } } := by
    intro q
    have h₁ := h.updateEnv e (v := { k.envs e with envStatus := status }) (by simp [hs, hlive]) rfl
      (h.dstva e)
    exact h₁.of_eq rfl rfl rfl rfl rfl rfl
  have hop : ∀ op, Prog.wp (onSchedList op) k (fun _ k' => Prog.wp (do
      modifyEnv e fun v => { v with envStatus := status }
      pure 0#32) k' (fun _ k' => KInv T k') (fun _ k' => KInv T k') Panic.NotRef)
      (fun _ k' => KInv T k') Panic.NotRef :=
    fun op => wp_onSchedList (by decide) (by decide) fun q _ => hset q
  simp only [Prog.wp_ite]
  exact ⟨fun _ => ⟨fun _ => hop _, fun _ => hop _⟩, fun _ => hset k.envSchedList⟩

lemma keeps_sysSetEnvStatus (envid status : Word) : Keeps T (sysSetEnvStatus envid status) :=
  (keeps_setEnvStatus envid (by decide)).ite
    ((keeps_setEnvStatus envid (by decide)).ite (Keeps.exit _))

lemma KInv.wp_sysSetTrapframe (h : KInv T k) {c : ℕ} (hc : k.curenv = some c) (envid tf : Word) :
    Prog.wp (sysSetTrapframe envid tf) k (fun _ k' => KInv T k') (fun _ k' => KInv T k')
      Panic.NotRef := by
  rw [sysSetTrapframe, Prog.wp_ite, Prog.wp_exit, Prog.wp_bind]
  refine ⟨fun _ => h, fun _ => ?_⟩
  refine (h.wp_envid2env envid true).mono ?_ (fun c k' hk => hk.2 ▸ h) (by rintro p rfl; decide)
  rintro e k' ⟨rfl, he, -⟩
  have hload := (keepsCur_loadTrapframe (T := T) tf).keeps h hc
  rw [Prog.wp_bind, Prog.wp_get, Prog.wp_ite, Prog.wp_bind, Prog.wp_bind]
  constructor
  · refine fun _ => hload.mono (fun frame k₁ h₁ => ?_) (fun _ _ h' => h') fun _ hp => hp
    exact h₁.of_eq rfl rfl rfl rfl rfl rfl
  · refine fun _ => hload.mono (fun frame k₁ h₁ => ?_) (fun _ _ h' => h') fun _ hp => hp
    exact h₁.updateEnv e Iff.rfl rfl (h₁.dstva e)

lemma keeps_sysIpcRecv (dstva : Word) : Keeps T (sysIpcRecv dstva) := by
  intro k h
  rw [sysIpcRecv, Prog.wp_ite, Prog.wp_exit, Prog.wp_bind, wp_getCurenv]
  refine ⟨fun _ => h, fun hva => ⟨fun c hc => ?_, fun _ => by decide⟩⟩
  have hdst : dstva < UTOP := by
    by_cases h0 : dstva = 0#32
    · rw [h0]
      decide
    · exact isIllegalVa_eq_false fun hc => hva ⟨h0, hc⟩
  obtain ⟨d, hd, -⟩ := h.cur c hc
  have hlive := (dirs_eq_some.mp hd).1
  rw [Prog.wp_bind, wp_modifyEnv]
  have h₁ := h.updateEnv c (v := { k.envs c with
    envIpcRecving := 1#32, envIpcDstva := dstva, envStatus := .notRunnable }) (by simp [hlive]) rfl
    hdst
  refine ((Keeps.onSchedList _).bind fun _ => Keeps.bind (Keeps.modify ?_) fun _ =>
    keeps_schedule true) _ h₁
  exact fun k h => h.of_eq rfl rfl rfl rfl rfl rfl

lemma keeps_sysCgetc : Keeps T sysCgetc := by
  refine Keeps.get_bind fun k h => ?_
  cases k.dev.consIn.dropWhile (· = 0) with
  | nil => exact (by decide : Panic.NotRef .hang)
  | cons ch rest => exact h.of_eq rfl rfl rfl rfl rfl rfl

lemma keeps_sysWriteDev (va value : Word) : Keeps T (sysWriteDev va value) := by
  refine Keeps.ite (Keeps.bind (Keeps.modify ?_) fun _ => keeps_voidResult) keeps_voidResult
  exact fun k h => h.of_eq rfl rfl rfl rfl rfl rfl

lemma keeps_sysGetenvid : Keeps T sysGetenvid := by
  refine Keeps.getCurenv.bind fun c => Keeps.get_bind fun k h => ?_
  exact h

lemma keeps_sysReadDev (va : Word) : Keeps T (sysReadDev va) := by
  refine Keeps.ite (Keeps.get_bind fun k h => ?_) (Keeps.pure _)
  exact h

/-- **Every system call keeps the invariant**, if it is admissible. -/
lemma KInv.wp_syscall (h : KInv T k) {c : ℕ} (hc : k.curenv = some c) {call : Syscall}
    (ha : call.Admissible k) (hx : call = .exofork → T.strict = true → k.HasAsid) :
    Prog.wp call.run k (fun _ k' => KInv T k') (fun _ k' => KInv T k') Panic.NotRef := by
  cases call with
  | putchar ch => exact ((keeps_printcharc _).bind fun _ => keeps_voidResult) k h
  | printCons s num => exact h.wp_sysPrintCons hc s num
  | getenvid => exact keeps_sysGetenvid k h
  | yield => exact keeps_schedule true k h
  | envDestroy envid => exact keeps_sysEnvDestroy envid k h
  | setTlbModEntry envid func => exact keeps_sysSetTlbModEntry envid func k h
  | memAlloc envid va perm => exact h.wp_sysMemAlloc ha
  | memMap srcid srcva dstid dstva perm => exact h.wp_sysMemMap ha
  | memUnmap envid va => exact keeps_sysMemUnmap envid va k h
  | exofork => exact h.wp_sysExofork (hx rfl)
  | setEnvStatus envid status => exact keeps_sysSetEnvStatus envid status k h
  | setTrapframe envid tf => exact h.wp_sysSetTrapframe hc envid tf
  | panic msg => exact (by decide : Panic.NotRef .sysPanic)
  | ipcTrySend envid value srcva perm => exact h.wp_sysIpcTrySend ha
  | ipcRecv dstva => exact keeps_sysIpcRecv dstva k h
  | cgetc => exact keeps_sysCgetc k h
  | writeDev va value => exact keeps_sysWriteDev va value k h
  | readDev va => exact keeps_sysReadDev va k h

/-! ## Traps -/

/-- The trap frame is that of a system call. -/
def Trapframe.Calls (tf : Trapframe) (call : Syscall) : Prop :=
  tf.cause = CAUSE_USER_ECALL ∧ tf.syscall = some call

/-- The call a trap makes, if it makes one, is admissible. -/
def Trapframe.Admissible (k : Kernel) (tf : Trapframe) : Prop :=
  ∀ call, tf.Calls call → call.Admissible k

lemma wp_callResult {x : KernelM Word} {Q : Word → Kernel → Prop} {E : Exit → Kernel → Prop}
    {P : Panic → Prop} :
    Prog.wp (callResult x) k Q E P ↔
      Prog.wp x k Q (fun c k' => match c with
        | .code e => Q (-e.toWord) k'
        | .popTf => E .popTf k') P := by
  rw [callResult, Prog.wp_bind, Prog.wp_attempt]
  apply iff_of_eq
  congr 1
  funext c k'
  cases c <;> rfl

lemma KInv.wp_doSyscall (h : KInv T k) {c : ℕ} (hc : k.curenv = some c)
    (ha : ∀ call, k.ktf.syscall = some call → call.Admissible k)
    (hx : k.ktf.syscall = some .exofork → T.strict = true → k.HasAsid) :
    Prog.wp doSyscall k (fun _ k' => KInv T k') (fun _ k' => KInv T k') Panic.NotRef := by
  rw [doSyscall, Prog.wp_bind, Prog.wp_get]
  cases hcall : k.ktf.syscall with
  | none => exact h.of_eq rfl rfl rfl rfl rfl rfl
  | some call =>
      simp only [Prog.wp_bind, Prog.wp_modify, wp_callResult]
      set k₁ : Kernel := { k with ktf := { k.ktf with epc := k.ktf.epc + 4#32 } }
      have h₁ : KInv T k₁ := h.of_eq rfl rfl rfl rfl rfl rfl
      have ha₁ : call.Admissible k₁ := ha call hcall
      have hx₁ : call = .exofork → T.strict = true → k₁.HasAsid := fun hc => hx (hc ▸ hcall)
      refine (h₁.wp_syscall hc ha₁ hx₁).mono (fun r k₂ h₂ => ?_)
        (fun code k₂ h₂ => ?_) fun _ hp => hp
      · exact h₂.of_eq rfl rfl rfl rfl rfl rfl
      · cases code with
        | code err => exact h₂.of_eq rfl rfl rfl rfl rfl rfl
        | popTf => exact h₂

lemma KInv.wp_normalPageFault (h : KInv T k) {c : ℕ} (hc : k.curenv = some c)
    (hs : T.Serves k.ktf.badvaddr) :
    Prog.wp normalPageFault k (fun _ k' => KInv T k') (fun _ k' => KInv T k') Panic.NotRef := by
  rw [normalPageFault, Prog.wp_bind, Prog.wp_get]
  exact (keepsCur_doTlbRefill hs _).keeps h hc

lemma KInv.wp_queryVpt (h : KInv T k) {c : ℕ} (hc : k.curenv = some c) :
    Prog.wp queryVpt k (fun _ k' => KInv T k') (fun _ k' => KInv T k') Panic.NotRef := by
  rw [queryVpt, Prog.wp_bind, Prog.wp_get, Prog.wp_bind]
  refine ((keepsCur_loadWord _).keeps h hc).mono (fun instr k₁ h₁ => ?_) (fun _ _ h' => h')
    fun _ hp => hp
  rw [Prog.wp_ite, Prog.wp_ite, Prog.wp_panic]
  refine ⟨fun _ => by decide, fun _ => ⟨fun _ => by decide, fun _ => ?_⟩⟩
  rw [Prog.wp_bind, Prog.wp_get]
  cases k₁.curPgdir with
  | none => exact (by decide : Panic.NotRef .vptNoPgdir)
  | some d =>
      rw [Prog.wp_bind, vptEntry]
      simp only [Prog.wp_ite, Prog.wp_pure, wp_liftPm, wp_pgdirWalk_false, Prog.wp_panic,
        Prog.wp_modify]
      have hfinal : ∀ tf, KInv T { k₁ with ktf := tf } :=
        fun tf => h₁.of_eq rfl rfl rfl rfl rfl rfl
      exact ⟨fun _ => hfinal _, fun _ => ⟨fun _ => hfinal _, fun _ => by decide⟩⟩

/-- The frame `user_mod` pushes lies below `UTOP`. -/
lemma xstackSp_le (sp : Word) : (xstackSp sp).toNat + TF_SIZE ≤ UTOP.toNat := by
  rw [xstackSp, BitVec.toNat_sub, show UTOP.toNat = 0x7f400000 by decide,
    BitVec.toNat_ofNat, TF_SIZE]
  split_ifs with h
  · decide
  · rw [not_or, BitVec.not_lt, BitVec.not_le, BitVec.le_def, BitVec.lt_def,
      show USTACKTOP.toNat = 0x7f3fe000 by decide,
        show UXSTACKTOP.toNat = 0x7f400000 by decide] at h
    omega

lemma KInv.wp_userMod (h : KInv T k) {c : ℕ} (hc : k.curenv = some c) :
    Prog.wp userMod k (fun _ k' => KInv T k') (fun _ k' => KInv T k') Panic.NotRef := by
  rw [userMod, Prog.wp_bind, Prog.wp_get, Prog.wp_bind, Prog.wp_modify, Prog.wp_bind]
  have h₁ : KInv T { k with ktf := k.ktf.setReg 2 (xstackSp (k.ktf.regs 2)) } :=
    h.of_eq rfl rfl rfl rfl rfl rfl
  refine ((keepsCur_storeTrapframe (xstackSp_le _) _).keeps h₁ hc).mono (fun _ k₂ h₂ => ?_)
    (fun _ _ h' => h') fun _ hp => hp
  refine (Keeps.getCurenv.bind fun c => Keeps.get_bind fun k h => ?_) k₂ h₂
  rw [Prog.wp_ite, Prog.wp_modify, Prog.wp_panic]
  exact ⟨fun _ => h.of_eq rfl rfl rfl rfl rfl rfl, fun _ => by decide⟩

/-- The trap does nothing that the template excludes. -/
def Trapframe.Serves (T : Template) (k : Kernel) (tf : Trapframe) : Prop :=
  (tf.cause = CAUSE_FAULT_STORE → T.Serves tf.badvaddr) ∧
    (tf.Calls .exofork → T.strict = true → k.HasAsid)

/-- **Every trap keeps the kernel invariant**, if the call it makes is admissible. -/
theorem KInv.wp_trap (h : KInv T k) {tf : Trapframe} (ha : tf.Admissible k) (hs : tf.Serves T k)
    (hc : k.curenv ≠ none ∨ tf.IsTick) :
    Prog.wp (trap tf) k (fun _ k' => KInv T k') (fun _ k' => KInv T k') Panic.NotRef := by
  rw [trap, Prog.wp_bind, Prog.wp_modify, trapsDispatch, Prog.wp_bind, Prog.wp_get, Prog.wp_ite]
  set k₁ : Kernel := { k with ktf := tf }
  have h₁ : KInv T k₁ := h.of_eq rfl rfl rfl rfl rfl rfl
  constructor
  · intro _
    rw [interruptHandler, Prog.wp_bind, Prog.wp_get, Prog.wp_ite, Prog.wp_panic]
    exact ⟨fun _ => keeps_schedule false k₁ h₁, fun _ => by decide⟩
  · intro hcause
    have hcur : k.curenv ≠ none := by
      refine hc.resolve_right fun htick => hcause ?_
      change 0x80000000#32 ≤ tf.cause
      rw [htick]
      decide
    obtain ⟨c, hc⟩ := Option.ne_none_iff_exists'.mp hcur
    rw [exceptionHandler, Prog.wp_bind, Prog.wp_get]
    simp only [Prog.wp_ite, Prog.wp_panic, Prog.wp_bind, wp_getCurPgdir]
    refine ⟨fun _ => by decide, fun _ => ⟨fun hecall => ?_, fun _ => ⟨fun _ => ⟨fun _ => ?_,
      fun hwin => ?_⟩, fun _ => ⟨fun hstore => ⟨fun d _ => ⟨fun _ => ?_, fun _ => ?_⟩,
      fun _ => by decide⟩, fun _ => by decide⟩⟩⟩⟩
    · exact h₁.wp_doSyscall hc (fun call hcall => ha call ⟨hecall, hcall⟩)
        fun hcall => hs.2 ⟨hecall, hcall⟩
    · exact h₁.wp_queryVpt hc
    · exact h₁.wp_normalPageFault hc (.inr hwin)
    · exact h₁.wp_userMod hc
    · exact h₁.wp_normalPageFault hc (hs.1 hstore)

end

end MosRv
