import MosRv.Acts
import MosRv.PageRuns

/-!
# Sends that fail

`sys_ipc_try_send` has five ways to fail.  The first three come before the target is touched.  The
last two, no page at the sender's address and no page table to be had for the receiver, come when
the receiver has been given the value and woken (`Kernel.SentInVain`), and nothing takes that back.
-/

namespace MosRv

open Prog Reach

/-! ## What a send needs -/

/-- Nothing that a send is about has changed: the IPC fields, the status and the address space of
`e`, and the list of the runnable envs. -/
structure Kernel.SendKeeps (k k' : Kernel) (e : ℕ) : Prop where
  value : (k'.envs e).envIpcValue = (k.envs e).envIpcValue
  sender : (k'.envs e).envIpcFrom = (k.envs e).envIpcFrom
  recving : (k'.envs e).envIpcRecving = (k.envs e).envIpcRecving
  dstva : (k'.envs e).envIpcDstva = (k.envs e).envIpcDstva
  perm : (k'.envs e).envIpcPerm = (k.envs e).envIpcPerm
  status : (k'.envs e).envStatus = (k.envs e).envStatus
  space : ∀ va, k'.pm.entryAt (k'.envs e).envPgdir va = k.pm.entryAt (k.envs e).envPgdir va
  sched : k'.envSchedList = k.envSchedList

lemma Kernel.SendKeeps.refl (k : Kernel) (e : ℕ) : k.SendKeeps k e :=
  ⟨rfl, rfl, rfl, rfl, rfl, rfl, fun _ => rfl, rfl⟩

/-- The send of `c` to `e` gets as far as waking `e`, and then fails. -/
structure Kernel.SentInVain (k : Kernel) (envid srcva : Word) (c e : ℕ) : Prop where
  src : srcva ≠ 0#32 ∧ isIllegalVa srcva = false
  target : k.Resolves envid false e
  cur : k.curenv = some c
  recving : (k.envs e).envIpcRecving ≠ 0#32
  /-- `e` can be put on the list. -/
  listed : (k.audit = true → (TailQueue.Op.insertTail e).proper (NENV + 1) k.envSchedList = true) ∧
    (TailQueue.Op.insertTail e).apply k.envSchedList ≠ none
  fails : k.SendFails c e srcva

section

variable {k k' : Kernel} {c e : ℕ} {envid value srcva perm : Word}

lemma Kernel.Resolves.setKtf {checkperm : Bool} (h : k.Resolves envid checkperm e)
    (tf : Trapframe) : { k with ktf := tf }.Resolves envid checkperm e := by
  cases h with
  | self h0 hcur => exact .self h0 hcur
  | other h0 hlive hid hperm => exact .other h0 hlive hid hperm

/-- The trap frame does not matter. -/
lemma Kernel.SentInVain.setKtf (h : k.SentInVain envid srcva c e) (tf : Trapframe) :
    { k with ktf := tf }.SentInVain envid srcva c e :=
  ⟨h.src, h.target.setKtf tf, h.cur, h.recving, h.listed, h.fails⟩

/-- A send that fails early changes nothing. -/
lemma wp_sysIpcTrySend_fails :
    wp (sysIpcTrySend envid value srcva perm) k (fun _ _ => True)
      (fun _ k' => k' = k ∨ ∃ c e, k.SentInVain envid srcva c e) fun _ => True := by
  rw [sysIpcTrySend, wp_ite, wp_exit]
  refine ⟨fun _ => .inl rfl, fun hva => ?_⟩
  refine wp_envid2env_bind (.inl rfl) fun e he => ?_
  rw [wp_bind, wp_get, wp_ite, wp_exit]
  refine ⟨fun _ => .inl rfl, fun hrecv => ?_⟩
  rw [wp_bind, wp_getCurenv]
  refine ⟨fun c hc => ?_, fun _ => trivial⟩
  rw [wp_bind, wp_modifyEnv, wp_bind]
  refine wp_onSchedList_of fun q hproper hq => ?_
  change wp _ (k.woken c e value perm q) _ _ _
  rw [wp_ite, wp_pure]
  refine ⟨fun hsrc => ?_, fun _ => trivial⟩
  refine (wp_sendPage c e srcva perm).mono (fun _ _ _ => trivial) (fun _ _ h => ?_)
    fun _ _ => trivial
  have hlegal : isIllegalVa srcva = false := Bool.eq_false_iff.mpr fun hill => hva ⟨hsrc, hill⟩
  have hlisted : (TailQueue.Op.insertTail e).apply k.envSchedList ≠ none := fun hno =>
    absurd (hq.symm.trans hno) (by simp)
  exact .inr ⟨c, e, ⟨hsrc, hlegal⟩, he, hc, hrecv, ⟨hproper, hlisted⟩, sendFails_woken.mp h.2.2⟩

/-- A send that fails late has woken its target. -/
lemma Kernel.SentInVain.run (h : k.SentInVain envid srcva c e) (value perm : Word) :
    ∃ x k', sysIpcTrySend envid value srcva perm k = .exit x k' ∧ x.IsCode ∧
      (k'.envs e).envIpcRecving = 0#32 ∧ (k'.envs e).envStatus = .runnable := by
  obtain ⟨q, hq⟩ := Option.ne_none_iff_exists'.mp h.listed.2
  have hwp : wp (sysIpcTrySend envid value srcva perm) k (fun _ _ => False)
      (fun x k' => x.IsCode ∧ (k'.envs e).envIpcRecving = 0#32 ∧
        (k'.envs e).envStatus = .runnable) fun _ => False := by
    rw [sysIpcTrySend, if_neg (by simp [h.src.2]), h.target.wp, wp_bind, wp_get,
      if_neg h.recving, wp_bind, wp_getCurenv]
    refine ⟨fun c' hc' => ?_, fun hc' => absurd (h.cur.symm.trans hc') (by simp)⟩
    obtain rfl := Option.some.inj (h.cur.symm.trans hc')
    rw [wp_bind, wp_modifyEnv, wp_bind, onSchedList, wp_bind, wp_get, if_neg, hq]
    · change wp _ (k.woken c e value perm q) _ _ _
      rw [if_pos h.src.1]
      have hfails : (k.woken c e value perm q).SendFails c e srcva := sendFails_woken.mpr h.fails
      refine (wp_sendPage c e srcva perm).mono (fun _ _ h => h.2.2 hfails) (fun _ k' h => ?_)
        fun _ h => h hfails
      obtain ⟨m, dev, rfl⟩ := h.2.1
      exact ⟨h.1, by simp [Kernel.woken], by simp [Kernel.woken]⟩
    · rintro ⟨ha, hno⟩
      exact absurd (h.listed.1 ha) (by simp [hno])
  exact hwp.exists_exit

/-- In the states of the kernel a send fails late in two cases: there is no page at `srcva`, or
there is no page table for `env_ipc_dstva` and no page to make one. -/
lemma KInv.sendFails_iff {T : Template} (h : KInv T k) (hc : k.curenv = some c)
    (he : (k.envs e).envStatus ≠ .free) (hsrc : srcva < UTOP) :
    k.SendFails c e srcva ↔ k.pm.entryAt (k.envs c).envPgdir srcva = none ∨
      (k.pm.pageFreeList = [] ∧
        ¬ HasFlag (k.pm.pde (k.envs e).envPgdir (k.envs e).envIpcDstva) PTE_V) := by
  obtain ⟨d, hd, -⟩ := h.cur c hc
  have hdc := dirs_of_ne_free (dirs_eq_some.mp hd).1
  have hde := dirs_of_ne_free he
  rw [Kernel.SendFails]
  cases hw : k.pm.entryAt (k.envs c).envPgdir srcva with
  | none => simp
  | some w =>
      have hlt : pteFrame w < k.pm.npage := by
        rw [entryAt_eq_slotWord (own_of_lt_UTOP (T := T) hsrc) hdc] at hw
        refine h.pages.target_lt (s := .pte c (PDX srcva) (PTX srcva)) ?_
        rw [target, hw]
        rfl
      have hdst := h.dstva e
      have hself := h.pages.wellFormed.not_tableAt_self hde (own_of_lt_UTOP hdst)
      simp only [Pmap.InsertFails, hlt, lt_ULIM_of_lt_UTOP hdst, true_and, reduceCtorEq, false_or]
      refine and_congr_right fun _ => or_iff_left ?_
      exact fun hs => hself hs.tableAt

/-- **A failed send changes nothing**, exactly if it does not get as far as waking the target. -/
theorem failed_send_changes_nothing_iff (k : Kernel) (envid value srcva perm : Word) :
    (∀ x k', sysIpcTrySend envid value srcva perm k = .exit x k' →
      k'.envSchedList = k.envSchedList ∧ ∀ e, k.Resolves envid false e → k.SendKeeps k' e) ↔
    ¬ ∃ c e, k.SentInVain envid srcva c e := by
  constructor
  · rintro hkeep ⟨c, e, h⟩
    obtain ⟨x, k', hrun, -, hrecv, -⟩ := h.run value perm
    exact h.recving (((hkeep x k' hrun).2 e h.target).recving.symm.trans hrecv)
  · intro hno x k' hrun
    obtain rfl := (wp_sysIpcTrySend_fails.of_exit hrun).resolve_right hno
    exact ⟨rfl, fun e _ => .refl k' e⟩

/-- A send without a page, to an env that waits. -/
lemma Kernel.Resolves.run_send (he : k.Resolves envid false e) (hcur : k.curenv = some c)
    (hrecv : (k.envs e).envIpcRecving ≠ 0#32)
    (hproper : (TailQueue.Op.insertTail e).proper (NENV + 1) k.envSchedList = true)
    {q : TailQueue.Queue ℕ} (hq : (TailQueue.Op.insertTail e).apply k.envSchedList = some q) :
    sysIpcTrySend envid value 0#32 perm k = .ok 0#32 (k.woken c e value perm q) := by
  have hwp : Prog.wp (sysIpcTrySend envid value 0#32 perm) k
      (fun r k' => r = 0#32 ∧ k' = k.woken c e value perm q) (fun _ _ => False)
      fun _ => False := by
    rw [sysIpcTrySend, if_neg (by simp), he.wp, wp_bind, wp_get, if_neg hrecv, wp_bind,
      wp_getCurenv]
    refine ⟨fun c' hc' => ?_, fun hc' => absurd (hcur.symm.trans hc') (by simp)⟩
    obtain rfl := Option.some.inj (hcur.symm.trans hc')
    rw [wp_bind, wp_modifyEnv, wp_bind]
    refine wp_onSchedList_proper hproper hq ?_
    rw [if_neg (by simp), wp_pure]
    exact ⟨rfl, rfl⟩
  obtain ⟨r, k', hrun, rfl, rfl⟩ := hwp.exists_ok
  exact hrun

end

/-! ## A send in vain -/

/-- In the state `k'` env 1 waits for a message, and env 0 runs. -/
structure Receiving (k k' : Kernel) : Prop where
  cur : k'.curenv = some 0
  recving : (k'.envs 1).envIpcRecving = 1#32
  status : (k'.envs 1).envStatus = .notRunnable
  sched : TailQueue.Rep k'.envSchedList [0]
  same : ∀ e, (k'.envs e).envId = (k.envs e).envId ∧ (k'.envs e).envPgdir = (k.envs e).envPgdir
  pm : k'.pm = k.pm

/-- Env 1 waits for a message, and env 0 gets to run. -/
lemma Populated.recv {mc : Machine} {T : Template} {k : Kernel} (h : Populated mc T 2 k)
    (hcur : k.curenv = some 1) : ∃ k', Step k (.trap (Syscall.ipcRecv 0#32).frame) k' ∧
      Receiving k k' := by
  have hrep : TailQueue.Rep k.envSchedList [1, 0] := h.sched
  obtain ⟨q, hq, hqrep⟩ := hrep.remove (a := 1) (by simp)
  have hwp : wp (trap (Syscall.ipcRecv 0#32).frame) k (fun _ _ => False)
      (fun x k' => x = .popTf ∧ Receiving k k') fun _ => False := by
    rw [wp_trap_call (Syscall.frame_calls _), Syscall.run, sysIpcRecv, if_neg (by simp), wp_bind,
      wp_getCurenv]
    refine ⟨fun c hc => ?_, fun hc => absurd (hcur.symm.trans hc) (by simp)⟩
    obtain rfl := Option.some.inj (hcur.symm.trans hc)
    rw [wp_bind, wp_modifyEnv, wp_bind]
    refine wp_onSchedList_proper (q := q) ?_ hq ?_
    · change decide (1 ∈ k.envSchedList.nodes (NENV + 1) k.envSchedList.first) = true
      rw [hrep.nodes_eq (by simp [NENV])]
      rfl
    rw [wp_bind, wp_modify]
    change wp _ ((k.entering (Syscall.ipcRecv 0#32).frame).receiving 1 0#32 q) _ _ _
    have hno : ((k.entering (Syscall.ipcRecv 0#32).frame).receiving 1 0#32 q).curRunnable =
        false := by
      rw [Kernel.curRunnable]
      simp [Kernel.receiving, Kernel.entering, hcur]
    have hrequeued := Kernel.requeued_of_not_curRunnable hno
    have hfirst : q.first = some 0 := hqrep.first_eq
    have hrun := (h.born 0 (by decide)).1
    refine (wp_schedule_of (fun hbad => absurd ?_ hbad) (fun q' hq' hnone => ?_)
      fun q' e hq' he hnot => ?_).mono (fun _ _ hf => hf) ?_ fun _ hp => hp
    · intro c hc hrunnable
      exact absurd (Kernel.curRunnable_eq_true.mpr ⟨c, hc, hrunnable⟩) (by simp [hno])
    · obtain rfl := Option.some.inj (hrequeued.symm.trans hq')
      exact absurd (hfirst.symm.trans hnone) (by simp)
    · obtain rfl := Option.some.inj (hrequeued.symm.trans hq')
      obtain rfl := Option.some.inj (hfirst.symm.trans he)
      exact hnot hrun
    · rintro - k' ⟨rfl, hs⟩
      refine ⟨rfl, ?_⟩
      cases hs with
      | stay hyield => exact absurd hyield (by decide)
      | pick _ hq' he _ =>
          obtain rfl := Option.some.inj (hrequeued.symm.trans hq')
          obtain rfl := Option.some.inj (hfirst.symm.trans he)
          refine ⟨rfl, ?_, ?_, hqrep, fun e => ?_, rfl⟩
          · simp [Kernel.running, Kernel.receiving, Kernel.entering, hcur]
          · simp [Kernel.running, Kernel.receiving, Kernel.entering, hcur]
          · by_cases h0 : e = 0
            · simp [Kernel.running, Kernel.receiving, Kernel.entering, hcur, h0]
            · by_cases h1 : e = 1
              · simp [Kernel.running, Kernel.receiving, Kernel.entering, hcur, h1]
              · simp [Kernel.running, Kernel.receiving, Kernel.entering, hcur, h0, h1, Ne.symm h1]
  obtain ⟨x, k', hrun, rfl, hk'⟩ := hwp.exists_exit
  exact ⟨k', ⟨.inl (by simp [hcur]), .inr hrun⟩, hk'⟩

/-- Env 1 is the one with the id 4097. -/
lemma Populated.resolves {mc : Machine} {T : Template} {k k' : Kernel} (h : Populated mc T 2 k)
    (hrecv : Receiving k k') : k'.Resolves 4097#32 false 1 := by
  have hid : (k'.envs 1).envId = 4097#32 := by
    rw [(hrecv.same 1).1, (h.born 1 (by decide)).2.2.2]
    decide
  have hx : ENVX 4097#32 = 1 := by decide
  have htarget : k'.Resolves 4097#32 false (ENVX 4097#32) :=
    .other (by decide) (by rw [hx, hrecv.status]; decide) (by rw [hx, hid]) nofun
  rwa [hx] at htarget

lemma Receiving.proper {k k' : Kernel} (hrecv : Receiving k k') :
    (TailQueue.Op.insertTail 1).proper (NENV + 1) k'.envSchedList = true := by
  change decide (1 ∉ k'.envSchedList.nodes (NENV + 1) k'.envSchedList.first) = true
  rw [hrecv.sched.nodes_eq (by simp)]
  rfl

/-- Env 0 sends env 1 the page at `UTEMP`, where it has none. -/
lemma Populated.sentInVain {mc : Machine} {T : Template} {k k' : Kernel} (h : Populated mc T 2 k)
    (hrecv : Receiving k k') : k'.SentInVain 4097#32 UTEMP 0 1 := by
  have hempty : k'.pm.entryAt (k'.envs 0).envPgdir UTEMP = none := by
    rw [hrecv.pm, (hrecv.same 0).2]
    exact h.empty 0 (by decide) UTEMP (by decide) (by decide)
  refine ⟨by decide, h.resolves hrecv, hrecv.cur, by rw [hrecv.recving]; decide,
    ⟨fun _ => hrecv.proper, ?_⟩, ?_⟩
  · obtain ⟨q, hq, -⟩ := hrecv.sched.insertTail (a := 1) (by simp)
    exact fun hno => absurd (hq.symm.trans hno) nofun
  · rw [Kernel.SendFails, hempty]
    trivial

/-- Env 0 sends env 1 a message without a page. -/
lemma Populated.run_send {mc : Machine} {T : Template} {k k' : Kernel} (h : Populated mc T 2 k)
    (hrecv : Receiving k k') (tf : Trapframe) : ∃ q, sysIpcTrySend 4097#32 7#32 0#32 0#32
      (k'.entering tf) = .ok 0#32 ((k'.entering tf).woken 0 1 7#32 0#32 q) := by
  obtain ⟨q, hq, -⟩ := hrecv.sched.insertTail (a := 1) (by simp)
  have htarget : (k'.entering tf).Resolves 4097#32 false 1 := (h.resolves hrecv).setKtf _
  have hne : ((k'.entering tf).envs 1).envIpcRecving ≠ 0#32 := by
    change (k'.envs 1).envIpcRecving ≠ 0#32
    rw [hrecv.recving]
    decide
  exact ⟨q, htarget.run_send hrecv.cur hne hrecv.proper hq⟩

/-- **A send that fails wakes the receiver.** -/
theorem failed_send_wakes : ∃ k, Reaches (smallMachine false) (fun k ev => ev.Admissible k) k ∧
    ∃ envid x k', sysIpcTrySend envid 0#32 UTEMP 0#32 k = .exit x k' ∧
      ∃ e, k.Resolves envid false e ∧ (k.envs e).envStatus = .notRunnable ∧
        (k'.envs e).envStatus = .runnable ∧ ¬ k.SendKeeps k' e := by
  have hcalls : ∀ k, (Event.trap tickFrame).Admissible k := by
    intro k call hcall
    exact absurd hcall (not_calls_tickFrame call)
  obtain ⟨k₀, T, k, hk₀, hk, -, hcur, hpop⟩ := exists_started false
    (C := fun k ev => ev.Admissible k) (fun _ _ => trivial) hcalls (show 1 < NASID by decide)
  obtain ⟨k', hstep, hrecv⟩ := hpop.recv hcur
  have hadm : (Event.trap (Syscall.ipcRecv 0#32).frame).Admissible k := by
    intro call hcall pp perm hm
    obtain rfl := Option.some.inj ((Syscall.frame_calls _).2.symm.trans hcall.2)
    cases hm
  have hvain := hpop.sentInVain hrecv
  obtain ⟨x, k'', hrun, -, hzero, hwoken⟩ := hvain.run 0#32 0#32
  exact ⟨k', (hk.reaches hk₀).step ⟨hadm, hstep⟩, 4097#32, x, k'', hrun, 1, hvain.target,
    hrecv.status, hwoken, fun hkeep => hvain.recving (hkeep.recving.symm.trans hzero)⟩

end MosRv
