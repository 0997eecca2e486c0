import MosRv.Contexts

/-!
# How a system call comes back

`do_syscall` moves `epc` behind the `ecall` and puts the handler's result in `a0`; a handler that
does not come back leaves that to the frame it saves.  `Trapframe.Returned` is the frame a caller
should find when control comes back to it.

`ServedOk` goes along a run beside `SavedOk`: what is saved for an env whose last trap was a system
call is the frame of `Trapframe.Served`.  That is the frame the env should find, unless the number
of the call is invalid: `do_syscall` then returns before `epc` is moved, and the env executes the
same `ecall` again (`syscall_returns_iff`).
-/

namespace MosRv

open Prog Reach

/-- The caller asks for another frame for itself. -/
def Trapframe.SetsOwn (k : Kernel) (tf : Trapframe) (envid va : Word) : Prop :=
  tf.Calls (.setTrapframe envid va) ∧ ∃ c, k.curenv = some c ∧ k.Resolves envid true c

/-- The frame, behind the `ecall`. -/
def Trapframe.behind (tf : Trapframe) : Trapframe := { tf with epc := tf.epc + 4#32 }

/-- **What a caller should find when control comes back**, after a system call with the frame `tf`
in the state `k`. -/
inductive Trapframe.Returned (k : Kernel) (tf : Trapframe) : Trapframe → Prop
  | result {call : Syscall} {r : Word} {k₁ : Kernel} (hcall : tf.Calls call)
      (hno : ∀ envid va, ¬ tf.SetsOwn k envid va) (hrun : call.run (k.entering tf) = .ok r k₁) :
      Returned k tf (tf.behind.setReg 10 r)
  | failed {call : Syscall} {err : Err} {k₁ : Kernel} (hcall : tf.Calls call)
      (hrun : call.run (k.entering tf) = .exit (.code err) k₁) :
      Returned k tf (tf.behind.setReg 10 (-err.toWord))
  /-- `sys_yield` has no result. -/
  | yield (hcall : tf.Calls .yield) : Returned k tf tf.behind
  | received {dstva : Word} {k₁ : Kernel} (hcall : tf.Calls (.ipcRecv dstva))
      (hrun : (Syscall.ipcRecv dstva).run (k.entering tf) = .exit .popTf k₁) :
      Returned k tf (tf.behind.setReg 10 0#32)
  | setTrapframe {envid va : Word} {frame : Trapframe} {k₁ : Kernel}
      (hown : tf.SetsOwn k envid va) (hload : loadTrapframe va (k.entering tf) = .ok frame k₁) :
      Returned k tf frame
  | invalid (hcause : tf.cause = CAUSE_USER_ECALL) (hcall : tf.syscall = none) :
      Returned k tf (tf.behind.setReg 10 (-Err.noSys.toWord))

/-- What it does find. -/
def Trapframe.Served (k : Kernel) (tf f : Trapframe) : Prop :=
  if tf.syscall = none then f = tf.setReg 10 (-Err.noSys.toWord) else tf.Returned k f

/-! ## One system call -/

section

variable {k k' k₁ : Kernel} {e : ℕ} {tf f : Trapframe} {call : Syscall} {r : Word}
  {x : Except Exit Word} {gone : Bool} {o : ℕ → Origin}

lemma Trapframe.Returned.epc_of_invalid (h : tf.Returned k f) (hnone : tf.syscall = none) :
    f.epc = tf.epc + 4#32 := by
  have hno : ∀ {call}, ¬ tf.Calls call := fun hcall => absurd (hnone.symm.trans hcall.2) nofun
  cases h with
  | result hcall => exact (hno hcall).elim
  | failed hcall => exact (hno hcall).elim
  | yield hcall => exact (hno hcall).elim
  | received hcall => exact (hno hcall).elim
  | setTrapframe hown => exact (hno hown.1).elim
  | invalid => rfl

/-- An invalid number, and only that, is not served as it should be. -/
lemma Trapframe.Served.returned_iff (h : tf.Served k f) : tf.Returned k f ↔ tf.syscall ≠ none := by
  rw [Trapframe.Served] at h
  by_cases hnone : tf.syscall = none
  · rw [if_pos hnone] at h
    subst h
    refine iff_of_false (fun hret => ?_) (not_not.mpr hnone)
    have hepc : tf.epc = tf.epc + 4#32 := hret.epc_of_invalid hnone
    bv_omega
  · rw [if_neg hnone] at h
    exact iff_of_true h hnone

/-- How a trap that makes a call ends, by the run of the handler. -/
lemma trap_call_ok (hcall : tf.Calls call) (h : trap tf k = .ok () k') :
    (∃ r k₁, call.run (k.entering tf) = .ok r k₁ ∧ k' = k₁.returning r) ∨
      ∃ err k₁, call.run (k.entering tf) = .exit (.code err) k₁ ∧
        k' = k₁.returning (-err.toWord) := by
  have hwp : wp (trap tf) k (fun _ k' =>
      (∃ r k₁, call.run (k.entering tf) = .ok r k₁ ∧ k' = k₁.returning r) ∨
        ∃ err k₁, call.run (k.entering tf) = .exit (.code err) k₁ ∧
          k' = k₁.returning (-err.toWord)) (fun _ _ => True) fun _ => True := by
    rw [wp_trap_call hcall]
    refine (wp_self _ _).mono (fun r k₁ hr => .inl ⟨r, k₁, hr, rfl⟩) (fun c k₁ hc => ?_)
      fun _ _ => trivial
    cases c with
    | code err => exact .inr ⟨err, k₁, hc, rfl⟩
    | popTf => trivial
  exact hwp.of_ok h

lemma trap_call_popTf (hcall : tf.Calls call) (h : trap tf k = .exit .popTf k') :
    call.run (k.entering tf) = .exit .popTf k' := by
  have hwp : wp (trap tf) k (fun _ _ => True)
      (fun _ k' => call.run (k.entering tf) = .exit .popTf k') fun _ => True := by
    rw [wp_trap_call hcall]
    refine (wp_self _ _).mono (fun _ _ _ => trivial) (fun c k₁ hc => ?_) fun _ _ => trivial
    cases c with
    | code err => trivial
    | popTf => exact hc
  exact hwp.of_exit h

/-- A handler that comes back leaves the frame alone, or has put another one there. -/
lemma Syscall.Acts.ktf_ok (h : Syscall.Acts k call (.ok r) k₁) :
    k₁.ktf = k.ktf ∧ (∀ envid va, call = .setTrapframe envid va → ∀ c, k.curenv = some c →
        ¬ k.Resolves envid true c) ∨
      ∃ envid va c k₂, call = .setTrapframe envid va ∧ k.curenv = some c ∧
        k.Resolves envid true c ∧ loadTrapframe va k = .ok k₁.ktf k₂ ∧ r = k₁.ktf.regs 10 := by
  cases h with
  | plain hplain hk =>
      obtain ⟨m, dev, rfl⟩ := hk
      refine .inl ⟨rfl, ?_⟩
      rintro _ _ rfl
      exact hplain.elim
  | setTrapframeSelf he hcur hload hk => exact .inr ⟨_, _, _, _, rfl, hcur, he, hload, rfl⟩
  | setTrapframe he hcur hload hk =>
      obtain ⟨m, dev, rfl⟩ := hk
      refine .inl ⟨rfl, ?_⟩
      rintro envid va ⟨⟩ c hc hres
      exact hcur (he.unique hres ▸ hc)
  | sent _ _ _ _ hk =>
      obtain ⟨m, dev, rfl⟩ := hk
      exact .inl ⟨rfl, nofun⟩
  | _ => exact .inl ⟨rfl, nofun⟩

lemma Syscall.Acts.ktf_failed {err : Err} (h : Syscall.Acts k call (.error (.code err)) k₁) :
    k₁.ktf = k.ktf ∧ k₁.curenv = k.curenv := by
  cases h with
  | failed _ hk =>
      obtain ⟨m, dev, rfl⟩ := hk
      exact ⟨rfl, rfl⟩
  | notForked => exact ⟨rfl, rfl⟩
  | sentLate _ _ _ _ _ _ _ hk =>
      obtain ⟨m, dev, rfl⟩ := hk
      exact ⟨rfl, rfl⟩

/-- **The caller's context after its system call**, whether the handler came back or not. -/
lemma served_of_call (hcall : tf.Calls call) (hcur : k.curenv = some e)
    (hlive : (k'.envs e).envStatus ≠ .free) :
    (trap tf k = .ok () k' → tf.Returned k k'.ktf) ∧
      (trap tf k = .exit .popTf k' → tf.Returned k (k'.envs e).envTf) := by
  have hset : ∀ {envid va}, tf.SetsOwn k envid va → call = .setTrapframe envid va := fun h =>
    hcall.unique h.1
  constructor
  · intro h
    obtain ⟨r, k₁, hrun, rfl⟩ | ⟨err, k₁, hrun, rfl⟩ := trap_call_ok hcall h
    · obtain ⟨hktf, hno⟩ | ⟨envid, va, c, k₂, rfl, hc, hres, hload, hr⟩ :=
        ((Syscall.acts call).of_ok hrun).ktf_ok
      · have hframe : (k₁.returning r).ktf = tf.behind.setReg 10 r := congrArg (·.setReg 10 r) hktf
        rw [hframe]
        refine .result hcall (fun envid va hown => ?_) hrun
        obtain ⟨c, hc, hres⟩ := hown.2
        exact hno envid va (hset hown) c hc (hres.setKtf _)
      · have hframe : (k₁.returning r).ktf = k₁.ktf := by
          rw [Kernel.returning, hr, Trapframe.setReg, Function.update_eq_self]
        rw [hframe]
        exact .setTrapframe ⟨hcall, c, hc, hres.of_setKtf⟩ hload
    · have hframe : (k₁.returning (-err.toWord)).ktf = tf.behind.setReg 10 (-err.toWord) :=
        congrArg (·.setReg 10 (-err.toWord)) ((Syscall.acts call).of_exit hrun).ktf_failed.1
      rw [hframe]
      exact .failed hcall hrun
  · intro h
    have hrun := trap_call_popTf hcall h
    cases (Syscall.acts call).of_exit hrun with
    | yield hs =>
        rw [hs.context e]
        rw [show (k.entering tf).context e = tf.behind from if_pos hcur]
        exact .yield hcall
    | @destroySelf envid c m q _ he hc hq hs =>
        -- the caller is gone
        rw [(hs.switched.envs e).envStatus] at hlive
        obtain rfl : c = e := Option.some.inj (hc.symm.trans hcur)
        exact absurd (by simp [Kernel.freed]) hlive
    | @received dstva c q _ hwaits hc hq hs =>
        rw [hs.context e]
        rw [show ((k.entering tf).receiving c dstva q).context e = tf.behind.setReg 10 0#32 from
          if_pos hcur]
        exact .received hcall hrun

lemma Syscall.Acts.curenv_ok (h : Syscall.Acts k call (.ok r) k₁) : k₁.curenv = k.curenv := by
  cases h with
  | plain _ hk =>
      obtain ⟨m, dev, rfl⟩ := hk
      rfl
  | setTrapframeSelf _ _ _ hk =>
      obtain ⟨m, dev, rfl⟩ := hk
      rfl
  | setTrapframe _ _ _ hk =>
      obtain ⟨m, dev, rfl⟩ := hk
      rfl
  | sent _ _ _ _ hk =>
      obtain ⟨m, dev, rfl⟩ := hk
      rfl
  | _ => rfl

/-- A handler that comes back comes back to the env that trapped. -/
lemma Trapframe.Acts.curenv (h : tf.Acts k false k') : k'.curenv = k.curenv := by
  cases h with
  | noCall => rfl
  | call _ hs => exact hs.curenv_ok
  | callFailed _ hs => exact hs.ktf_failed.2
  | fault _ hk =>
      obtain ⟨m, dev, rfl⟩ := hk
      rfl
  | queryVpt _ _ _ _ _ hk =>
      obtain ⟨m, dev, rfl⟩ := hk
      rfl
  | userMod _ hk =>
      obtain ⟨m, dev, rfl⟩ := hk
      rfl

/-- The caller's context after any `ecall`. -/
lemma served_of_trap (hcause : tf.cause = CAUSE_USER_ECALL) (hcur : k.curenv = some e)
    (hlive : (k'.envs e).envStatus ≠ .free) :
    (trap tf k = .ok () k' → tf.Served k (k'.context e)) ∧
      (trap tf k = .exit .popTf k' → tf.Served k (k'.envs e).envTf) := by
  have hctx : trap tf k = .ok () k' → k'.context e = k'.ktf := fun h =>
    if_pos (((Trapframe.acts k tf).of_ok h).curenv.trans hcur)
  have hlow : ¬ (0x80000000#32 ≤ tf.cause) := by
    rw [hcause]
    decide
  cases hsys : tf.syscall with
  | some call =>
      have hcall : tf.Calls call := ⟨hcause, hsys⟩
      have hserved : ∀ {f}, tf.Returned k f → tf.Served k f := fun hret => by
        rw [Trapframe.Served, if_neg (by simp [hsys])]
        exact hret
      obtain ⟨hok, hexit⟩ := served_of_call hcall hcur hlive
      exact ⟨fun h => hctx h ▸ hserved (hok h), fun h => hserved (hexit h)⟩
  | none =>
      have hno : ∀ {call}, ¬ tf.Calls call := fun hcall => absurd (hsys.symm.trans hcall.2) nofun
      constructor
      · intro h
        rw [hctx h, Trapframe.Served, if_pos hsys]
        cases (Trapframe.acts k tf).of_ok h with
        | noCall => rfl
        | call hcall => exact (hno hcall).elim
        | callFailed hcall => exact (hno hcall).elim
        | fault hc => rcases hc with hc | hc <;> exact absurd (hcause.symm.trans hc) (by decide)
        | queryVpt _ _ hc => exact absurd (hcause.symm.trans hc) (by decide)
        | userMod hc => exact absurd (hcause.symm.trans hc) (by decide)
      · intro h
        cases ((Trapframe.acts k tf).of_exit h).2 with
        | tick hc => exact absurd hc hlow
        | callGone hcall => exact (hno hcall).elim

end

/-! ## Along a run -/

section

variable {mc : Machine} {C : Kernel → Event → Prop} {k k' k₀ : Kernel} {e : ℕ}
  {tf tf₀ f : Trapframe} {ev : Event} {gone : Bool} {x : Kernel × (ℕ → Origin)} {o : ℕ → Origin}

/-- If the origin is a system call, the context is the one it leaves. -/
def Origin.Serves (o : Origin) (f : Trapframe) : Prop :=
  ∀ k tf, o = .trapped k tf → tf.cause = CAUSE_USER_ECALL → tf.Served k f

/-- What is saved for the envs that do not run is what their last system call left them. -/
def ServedOk (x : Kernel × (ℕ → Origin)) : Prop :=
  ∀ e, (x.1.envs e).envStatus ≠ .free → x.1.curenv ≠ some e → (x.2 e).Serves (x.1.envs e).envTf

/-- **One trap.** -/
lemma ServedOk.trap (h : ServedOk x) (hinv : EnvInv x.1)
    (hrun : (gone = false ∧ trap tf x.1 = .ok () k') ∨
      (gone = true ∧ trap tf x.1 = .exit .popTf k'))
    (hlive' : (k'.envs e).envStatus ≠ .free) :
    (origins x.1 (.trap tf) k' x.2 e).Serves
    (if gone then (k'.envs e).envTf else k'.context e) := by
  have ha : tf.Acts x.1 gone k' := by
    obtain ⟨rfl, hok⟩ | ⟨rfl, hexit⟩ := hrun
    · exact (Trapframe.acts x.1 tf).of_ok hok
    · exact ((Trapframe.acts x.1 tf).of_exit hexit).2
  intro k₀ tf₀ horigin hcause
  simp only [origins] at horigin
  cases ContextChange.trap hinv ha hlive' with
  | trapped hcur _ =>
      rw [if_pos hcur] at horigin
      cases horigin
      obtain ⟨hok, hexit⟩ := served_of_trap hcause hcur hlive'
      obtain ⟨rfl, hrun⟩ | ⟨rfl, hrun⟩ := hrun
      · exact hok hrun
      · exact hexit hrun
  | forked hfree _ =>
      have hcur : x.1.curenv ≠ some e := fun hc => hinv.cur_live e hc hfree
      rw [if_neg hcur, if_pos ⟨hfree, hlive'⟩] at horigin
      cases horigin
  | given hcur hlive hg =>
      rw [if_neg hcur, if_neg (fun hc => hlive hc.1), dif_pos ⟨_, hg⟩] at horigin
      cases horigin
  | kept hcur hlive hno hf =>
      rw [if_neg hcur, if_neg (fun hc => hlive hc.1),
        dif_neg (fun hex => hno _ hex.choose_spec)] at horigin
      rw [hf]
      exact h e hlive hcur k₀ tf₀ horigin hcause

lemma ServedOk.step (h : ServedOk x) (hinv : EnvInv x.1) (hs : Step x.1 ev k') :
    ServedOk (k', origins x.1 ev k' x.2) := by
  intro e hlive' hcur'
  cases ev with
  | trap tf =>
      obtain ⟨-, hok | hexit⟩ := hs
      · exact (if_neg hcur' : k'.context e = _) ▸ h.trap hinv (.inl ⟨rfl, hok⟩) hlive'
      · exact h.trap hinv (.inr ⟨rfl, hexit⟩) hlive'
  | store va b =>
      obtain ⟨-, m, dev, rfl⟩ : ∃ _ : x.1.curenv ≠ none, x.1.Like k' := by
        cases hs.acts with
        | store hcur hk => exact ⟨hcur, hk⟩
      exact h e hlive' hcur'
  | create img priority =>
      intro k₀ tf₀ horigin hcause
      simp only [origins] at horigin
      split_ifs at horigin with hc
      cases hs.acts with
      | @create _ _ e₀ pp i rest prest q _ hcur hfree hpage hasid hq hk =>
          obtain ⟨m, dev, rfl⟩ := hk
          have hee : e ≠ e₀ := by
            rintro rfl
            exact hc ⟨hinv.free_free e (by simp [hfree]), hlive'⟩
          have hold : (x.1.created e₀ rest pp prest i priority img.eEntry x.1.pm q).envs e =
              x.1.envs e := by
            simp [Kernel.created, Kernel.newborn, hee]
          have hlive : (x.1.envs e).envStatus ≠ .free := hold ▸ hlive'
          exact congrArg Env.envTf hold ▸ h e hlive hcur' k₀ tf₀ horigin hcause

end

end MosRv
