import MosRv.Env

/-!
# What the scheduler does (`kern/sched.c`)

`schedule` moves the current environment to the tail of `env_sched_list`, or leaves the list alone,
and resumes a runnable environment; it changes nothing else but the saved context and the count of
runs of an environment.  `wp_schedule` says so once, for every caller.
-/

namespace MosRv

/-- The lists that `schedule` may leave. -/
inductive Kernel.Requeued (k : Kernel) : TailQueue.Queue ℕ → Prop
  | same : k.Requeued k.envSchedList
  | moved {c : ℕ} {q₁ q : TailQueue.Queue ℕ} (hcur : k.curenv = some c)
      (hrun : (k.envs c).envStatus = .runnable)
      (hremove : (TailQueue.Op.remove c).apply k.envSchedList = some q₁)
      (hinsert : (TailQueue.Op.insertTail c).apply q₁ = some q) : k.Requeued q

/-- The current environment, if it is runnable, can be moved to the tail of the list. -/
def Kernel.CanRequeue (k : Kernel) : Prop :=
  ∀ c, k.curenv = some c → (k.envs c).envStatus = .runnable → ∃ q₁ q,
    (TailQueue.Op.remove c).proper (NENV + 1) k.envSchedList = true ∧
    (TailQueue.Op.remove c).apply k.envSchedList = some q₁ ∧
    (TailQueue.Op.insertTail c).proper (NENV + 1) q₁ = true ∧
    (TailQueue.Op.insertTail c).apply q₁ = some q

/-- The panics that `schedule` can end in. -/
def Kernel.SchedPanic (k : Kernel) (p : Panic) : Prop :=
  p = .noRunnable ∨ p = .assertRunnable ∨ p = .nullCurenv ∨
    (p = .nullLink ∨ p = .listMisuse) ∧ ¬ k.CanRequeue

section

variable {k : Kernel} {α : Type}

lemma wp_requeueCur :
    Prog.wp requeueCur k (fun _ k' => ∃ q, k.Requeued q ∧ k' = { k with envSchedList := q })
      (fun _ _ => False) k.SchedPanic := by
  rw [requeueCur, Prog.wp_bind, Prog.wp_get]
  cases hcur : k.curenv with
  | none => exact ⟨_, .same, by rw [← hcur]⟩
  | some c =>
      rw [Prog.wp_ite, Prog.wp_bind]
      refine ⟨fun hrun => ?_, fun _ => ⟨_, .same, by rw [← hcur]⟩⟩
      by_cases hok : k.CanRequeue
      · obtain ⟨q₁, q, hp₁, h₁, hp₂, h₂⟩ := hok c hcur hrun
        refine wp_onSchedList_proper hp₁ h₁ ?_
        refine wp_onSchedList_proper hp₂ h₂ ?_
        exact ⟨q, .moved hcur hrun h₁ h₂, by rw [← hcur]⟩
      · have hp : ∀ p, p = .nullLink ∨ p = .listMisuse → k.SchedPanic p :=
          fun p hp => .inr (.inr (.inr ⟨hp, hok⟩))
        refine wp_onSchedList (hp _ (.inl rfl)) (hp _ (.inr rfl)) fun q₁ h₁ => ?_
        refine wp_onSchedList (hp _ (.inl rfl)) (hp _ (.inr rfl)) fun q h₂ => ?_
        exact ⟨q, .moved hcur hrun h₁ h₂, by rw [← hcur]⟩

/-- **What `schedule` does.** -/
lemma wp_schedule (yield : Bool) :
    Prog.wp (schedule yield : KernelM α) k (fun _ _ => False)
      (fun x k' => x = .popTf ∧ ∃ q count e, k.Requeued q ∧ (k.envs e).envStatus = .runnable ∧
        k' = { k with envSchedList := q, schedCount := count }.running e) k.SchedPanic := by
  have hrun : ∀ q count e, k.Requeued q →
      Prog.wp (envRun e : KernelM α) { k with envSchedList := q, schedCount := count }
        (fun _ _ => False)
        (fun x k' => x = .popTf ∧ ∃ q count e, k.Requeued q ∧ (k.envs e).envStatus = .runnable ∧
          k' = { k with envSchedList := q, schedCount := count }.running e) k.SchedPanic := by
    intro q count e hq
    rw [wp_envRun]
    exact ⟨fun hstatus => ⟨rfl, q, count, e, hq, hstatus, rfl⟩, fun _ => .inr (.inl rfl)⟩
  rw [schedule, nextEnv, Prog.wp_bind, Prog.wp_bind, Prog.wp_get, Prog.wp_ite]
  refine ⟨fun _ => ?_, fun _ => ?_⟩
  · rw [pickEnv, Prog.wp_bind]
    refine wp_requeueCur.mono ?_ (fun _ _ hf => hf.elim) fun _ hp => hp
    rintro - k' ⟨q, hq, rfl⟩
    rw [Prog.wp_bind, Prog.wp_get]
    cases q.first with
    | none => exact .inl rfl
    | some e =>
        rw [Prog.wp_bind, Prog.wp_set, Prog.wp_pure, Prog.wp_bind, Prog.wp_modify]
        exact hrun q _ e hq
  · rw [wp_getCurenv]
    refine ⟨fun c hcur => ?_, fun _ => .inr (.inr (.inl rfl))⟩
    rw [Prog.wp_bind, Prog.wp_modify]
    exact hrun _ _ c .same

end

/-- An environment as `schedule` leaves it: with another context and another count of runs, maybe.
-/
structure Env.SameButContext (v v' : Env) : Prop where
  envId : v'.envId = v.envId
  envAsid : v'.envAsid = v.envAsid
  envParentId : v'.envParentId = v.envParentId
  envStatus : v'.envStatus = v.envStatus
  envPgdir : v'.envPgdir = v.envPgdir
  envPri : v'.envPri = v.envPri
  envIpcValue : v'.envIpcValue = v.envIpcValue
  envIpcFrom : v'.envIpcFrom = v.envIpcFrom
  envIpcRecving : v'.envIpcRecving = v.envIpcRecving
  envIpcDstva : v'.envIpcDstva = v.envIpcDstva
  envIpcPerm : v'.envIpcPerm = v.envIpcPerm
  envUserTlbModEntry : v'.envUserTlbModEntry = v.envUserTlbModEntry

lemma Env.SameButContext.refl {v : Env} : v.SameButContext v := by
  constructor <;> rfl

lemma running_sameButContext (k : Kernel) (e e' : ℕ) :
    (k.envs e').SameButContext ((k.running e).envs e') := by
  by_cases he : e' = e
  · subst he
    by_cases hc : k.curenv = some e'
    · constructor <;> simp [Kernel.running, hc]
    · constructor <;> simp [Kernel.running, hc]
  · by_cases hc : k.curenv = some e'
    · constructor <;> simp [Kernel.running, he, hc]
    · constructor <;> simp [Kernel.running, he, hc]

/-- `schedule` changes nothing of an environment but its context. -/
lemma wp_schedule_envs {α : Type} {k : Kernel} {envs : ℕ → Env} (henvs : k.envs = envs)
    (yield : Bool) :
    Prog.wp (schedule yield : KernelM α) k (fun _ _ => False)
      (fun x k' => x = .popTf ∧ ∀ e, (envs e).SameButContext (k'.envs e)) k.SchedPanic := by
  subst henvs
  refine (wp_schedule yield).mono (fun _ _ hf => hf) ?_ fun _ hp => hp
  rintro x k' ⟨hx, q, count, e, -, -, rfl⟩
  exact ⟨hx, fun e' => running_sameButContext _ e e'⟩

/-! ## Exactly -/

/-- `env_sched_list` with the current environment, if it is runnable, moved to the tail. -/
def Kernel.requeued (k : Kernel) : Option (TailQueue.Queue ℕ) :=
  match k.curenv with
  | some c =>
      if (k.envs c).envStatus = .runnable then
        (k.envSchedList.remove c).bind fun q => q.insertTail c
      else some k.envSchedList
  | none => some k.envSchedList

/-- The states that `schedule` goes back to user mode in. -/
inductive Kernel.Scheduled (k : Kernel) (yield : Bool) : Kernel → Prop
  /-- The current environment has time slices left. -/
  | stay {c : ℕ} (hyield : yield = false) (hcount : k.schedCount ≠ 0#32) (hcur : k.curenv = some c)
      (hrun : (k.envs c).envStatus = .runnable) :
      k.Scheduled yield ({ k with schedCount := k.schedCount - 1#32 }.running c)
  /-- The head of the list is picked. -/
  | pick {q : TailQueue.Queue ℕ} {e : ℕ}
      (h : yield = true ∨ k.schedCount = 0#32 ∨ k.curRunnable = false) (hq : k.requeued = some q)
      (hfirst : q.first = some e) (hrun : (k.envs e).envStatus = .runnable) :
      k.Scheduled yield
        ({ k with envSchedList := q, schedCount := (k.envs e).envPri - 1#32 }.running e)

section

variable {k k' : Kernel} {α : Type} {yield : Bool}

lemma Kernel.curRunnable_eq_true : k.curRunnable = true ↔
    ∃ c, k.curenv = some c ∧ (k.envs c).envStatus = .runnable := by
  rw [Kernel.curRunnable]
  cases k.curenv with
  | none => simp
  | some c => simp

lemma Kernel.requeued_runnable {c : ℕ} (hcur : k.curenv = some c)
    (hrun : (k.envs c).envStatus = .runnable) :
    k.requeued = (k.envSchedList.remove c).bind fun q => q.insertTail c := by
  rw [Kernel.requeued, hcur]
  exact if_pos hrun

lemma Kernel.requeued_of_not_curRunnable (h : k.curRunnable = false) :
    k.requeued = some k.envSchedList := by
  rw [Kernel.requeued]
  rw [Kernel.curRunnable] at h
  cases hcur : k.curenv with
  | none => rfl
  | some c =>
      rw [hcur] at h
      exact if_neg (of_decide_eq_false h)

/-- A `requeueCur` that the macros let through. -/
lemma wp_requeueCur_of {Q : Unit → Kernel → Prop} {E : Exit → Kernel → Prop} {P : Panic → Prop}
    (hbad : ¬ k.CanRequeue → P .nullLink ∧ P .listMisuse)
    (hQ : ∀ q, k.requeued = some q → Q () { k with envSchedList := q }) :
    Prog.wp requeueCur k Q E P := by
  rw [requeueCur, Prog.wp_bind, Prog.wp_get]
  by_cases hcr : k.curRunnable = true
  · obtain ⟨c, hcur, hrun⟩ := Kernel.curRunnable_eq_true.mp hcr
    have hq := fun q₁ q h₁ h₂ =>
      hQ q ((Kernel.requeued_runnable hcur hrun).trans (Option.bind_eq_some_iff.mpr ⟨q₁, h₁, h₂⟩))
    simp only [hcur, if_pos hrun, Prog.wp_bind]
    by_cases hok : k.CanRequeue
    · obtain ⟨q₁, q, hp₁, h₁, hp₂, h₂⟩ := hok c hcur hrun
      refine wp_onSchedList_proper hp₁ h₁ ?_
      exact wp_onSchedList_proper hp₂ h₂ (hq q₁ q h₁ h₂)
    · obtain ⟨hnull, hmisuse⟩ := hbad hok
      refine wp_onSchedList hnull hmisuse fun q₁ h₁ => ?_
      exact wp_onSchedList hnull hmisuse fun q h₂ => hq q₁ q h₁ h₂
  · have hsame : Q () k := hQ _ (Kernel.requeued_of_not_curRunnable (by simpa using hcr))
    cases hcur : k.curenv with
    | none => exact hsame
    | some c =>
        have hno : (k.envs c).envStatus ≠ .runnable :=
          fun hrun => hcr (Kernel.curRunnable_eq_true.mpr ⟨c, hcur, hrun⟩)
        simp only [if_neg hno]
        exact hsame

/-- **`schedule`, exactly**, with the panics that are left open. -/
lemma wp_schedule_of {P : Panic → Prop} (hbad : ¬ k.CanRequeue → P .nullLink ∧ P .listMisuse)
    (hempty : ∀ q, k.requeued = some q → q.first = none → P .noRunnable)
    (hassert : ∀ q e, k.requeued = some q → q.first = some e → (k.envs e).envStatus ≠ .runnable →
      P .assertRunnable) :
    Prog.wp (schedule yield : KernelM α) k (fun _ _ => False)
      (fun x k' => x = .popTf ∧ k.Scheduled yield k') P := by
  rw [schedule, nextEnv, Prog.wp_bind, Prog.wp_bind, Prog.wp_get, Prog.wp_ite]
  refine ⟨fun h => ?_, fun h => ?_⟩
  · rw [pickEnv, Prog.wp_bind]
    refine wp_requeueCur_of hbad fun q hq => ?_
    rw [Prog.wp_bind, Prog.wp_get]
    cases hfirst : q.first with
    | none => exact hempty q hq hfirst
    | some e =>
        rw [Prog.wp_bind, Prog.wp_set, Prog.wp_pure, Prog.wp_bind, Prog.wp_modify, wp_envRun]
        exact ⟨fun hrun => ⟨rfl, .pick h hq hfirst hrun⟩, fun hno => hassert q e hq hfirst hno⟩
  · rw [not_or, not_or, Bool.not_eq_true, Bool.not_eq_false] at h
    obtain ⟨hyield, hcount, hrunnable⟩ := h
    obtain ⟨c, hcur, hrun⟩ := Kernel.curRunnable_eq_true.mp hrunnable
    rw [wp_getCurenv]
    refine ⟨fun c' hc' => ?_, fun hnone => absurd (hcur.symm.trans hnone) nofun⟩
    obtain rfl := Option.some.inj (hcur.symm.trans hc')
    rw [Prog.wp_bind, Prog.wp_modify, wp_envRun]
    exact ⟨fun _ => ⟨rfl, .stay hyield hcount hcur hrun⟩, fun hno => absurd hrun hno⟩

lemma wp_schedule_scheduled :
    Prog.wp (schedule yield : KernelM α) k (fun _ _ => False)
      (fun x k' => x = .popTf ∧ k.Scheduled yield k') fun _ => True :=
  wp_schedule_of (fun _ => ⟨trivial, trivial⟩) (fun _ _ _ => trivial) fun _ _ _ _ _ => trivial

end

end MosRv
