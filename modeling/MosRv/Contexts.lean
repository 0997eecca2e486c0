import MosRv.Receivers

/-!
# Contexts across switches

There is one frame below `KSTACKTOP`, for whatever env runs, and one saved frame per env; `env_run`
copies the first to the second for the env that `curenv` names, and paths that end an env reset
`curenv` first.

`origins` keeps, along a run, where each env's context comes from: its last trap, the call of
`sys_exofork` or the image that made it, or a frame its parent has given it.  `contexts_preserved`
says that the frame an env is resumed with is the one its origin allows: the frame of its last trap,
but for what the handling of that trap does to it (`Trapframe.Handled`).
-/

namespace MosRv

open Prog Reach

/-! ## Where a context comes from -/

/-- **What an env finds in its registers after its own trap**, with the frame `tf`, in the state
`k`. -/
inductive Trapframe.Handled (k : Kernel) (tf : Trapframe) : Trapframe → Prop
  /-- An interrupt, or a demand fault: nothing has happened. -/
  | same (h : tf.cause ≠ CAUSE_USER_ECALL) : Handled k tf tf
  | noCall (hcause : tf.cause = CAUSE_USER_ECALL) (hcall : tf.syscall = none) :
      Handled k tf (tf.setReg 10 (-Err.noSys.toWord))
  /-- `a0` is the result of the call, and `epc` is behind the `ecall`. -/
  | call {call : Syscall} (hcall : tf.Calls call) (r : Word) :
      Handled k tf ({ tf with epc := tf.epc + 4#32 }.setReg 10 r)
  | yield (hcall : tf.Calls .yield) : Handled k tf { tf with epc := tf.epc + 4#32 }
  | setTrapframe {envid va : Word} {c : ℕ} {frame : Trapframe} {k₁ : Kernel}
      (hcall : tf.Calls (.setTrapframe envid va)) (hcur : k.curenv = some c)
      (hself : k.Resolves envid true c) (hload : loadTrapframe va (k.entering tf) = .ok frame k₁) :
      Handled k tf frame
  /-- The load in the window is emulated: its register gets a word, and it is skipped. -/
  | queryVpt {instr : Word} {k₁ : Kernel} (w : Word) (hcause : tf.cause = CAUSE_FAULT_LOAD)
      (hwindow : UVPT ≤ tf.badvaddr ∧ tf.badvaddr < ULIM)
      (hinstr : loadWord tf.epc { k with ktf := tf } = .ok instr k₁) :
      Handled k tf
        { tf.setReg (Fin.ofNat 32 (instr >>> 7).toNat) w with epc := tf.epc + 4#32 }
  /-- The env's handler is called. -/
  | userMod {c : ℕ} (hcause : tf.cause = CAUSE_FAULT_STORE) (hcur : k.curenv = some c) :
      Handled k tf { (tf.setReg 2 (xstackSp (tf.regs 2))).setReg 10 (xstackSp (tf.regs 2)) with
        epc := (k.envs c).envUserTlbModEntry }

/-- Where the context of an env comes from. -/
inductive Origin
  | trapped (k : Kernel) (tf : Trapframe)
  /-- `sys_exofork`, called with the frame `tf`. -/
  | forked (tf : Trapframe)
  /-- `env_create`, of a program that starts at `entry`. -/
  | created (entry : Word)
  /-- `sys_set_trapframe`, called by the parent. -/
  | given (frame : Trapframe)

/-- The frame may be the one that an env with this origin is resumed with. -/
def Origin.Allows : Origin → Trapframe → Prop
  | .trapped k tf, f => tf.Handled k f
  | .forked tf, f => f = { tf with epc := tf.epc + 4#32 }.setReg 10 0#32
  | .created entry, f => f.epc = entry ∧ f.regs 2 = USTACKTOP - 8#32
  | .given frame, f => f = frame

/-- The call of `tf` is a successful `sys_set_trapframe`, by the parent of `e`, that gives `e` the
frame. -/
structure Kernel.Gives (k : Kernel) (tf : Trapframe) (k' : Kernel) (e : ℕ) (frame : Trapframe) :
    Prop where
  call : ∃ envid va k₁, tf.Calls (.setTrapframe envid va) ∧ k.Resolves envid true e ∧
    loadTrapframe va (k.entering tf) = .ok frame k₁
  parent : ∃ c, k.curenv = some c ∧ c ≠ e ∧ (k.envs e).envParentId = (k.envs c).envId
  succeeds : k'.ktf.regs 10 = 0#32

open Classical in
/-- The origin of the context of `e` after an event that leads from `k` to `k'`. -/
noncomputable def origins (k : Kernel) (ev : Event) (k' : Kernel) (o : ℕ → Origin) (e : ℕ) :
    Origin :=
  match ev with
  | .create img _ => if k.Created k' e then .created img.eEntry else o e
  | .store _ _ => o e
  | .trap tf =>
      if k.curenv = some e then .trapped k tf
      else if k.Created k' e then .forked tf
      else if h : ∃ frame, k.Gives tf k' e frame then .given h.choose
      else o e

/-- The runs of the machine with the history. -/
def ReachesOrigins (mc : Machine) (C : Kernel → Event → Prop) : Kernel × (ℕ → Origin) → Prop :=
  Reachable (fun x => mc.Boots x.1) (When (fun x ev => C x.1 ev) (Tracked origins Step))

/-- `e` goes back to user mode with the frame `f`, after a trap. -/
inductive Resumes (k : Kernel) (tf : Trapframe) (k' : Kernel) : ℕ → Trapframe → Prop
  /-- The handler comes back, to the frame below `KSTACKTOP`. -/
  | returns {e : ℕ} (h : trap tf k = .ok () k') (hcur : k'.curenv = some e) :
      Resumes k tf k' e k'.ktf
  /-- `env_pop_tf`. -/
  | switches {e : ℕ} (h : trap tf k = .exit .popTf k') (hcur : k'.curenv = some e) :
      Resumes k tf k' e (k'.envs e).envTf

/-! ## One event -/

/-- What an event does to the context of an env that is live afterwards. -/
inductive ContextChange (k : Kernel) (tf : Trapframe) (k' : Kernel) (e : ℕ) (f : Trapframe) : Prop
  | trapped (hcur : k.curenv = some e) (h : tf.Handled k f)
  | forked (hfree : (k.envs e).envStatus = .free)
      (hf : f = { tf with epc := tf.epc + 4#32 }.setReg 10 0#32)
  | given (hcur : k.curenv ≠ some e) (hlive : (k.envs e).envStatus ≠ .free)
      (h : k.Gives tf k' e f)
  | kept (hcur : k.curenv ≠ some e) (hlive : (k.envs e).envStatus ≠ .free)
      (hno : ∀ frame, ¬ k.Gives tf k' e frame) (hf : f = (k.envs e).envTf)

section

variable {k k' k₀ k₁ : Kernel} {e : ℕ} {tf f : Trapframe} {call : Syscall}
  {r : Except Exit Word} {gone yield : Bool} {ev : Event} {o : ℕ → Origin}

lemma Kernel.Gives.unique {f' : Trapframe} (h : k.Gives tf k' e f) (h' : k.Gives tf k' e f') :
    f = f' := by
  obtain ⟨⟨envid, va, k₁, hcall, -, hload⟩, -, -⟩ := h
  obtain ⟨⟨envid', va', k₁', hcall', -, hload'⟩, -, -⟩ := h'
  cases hcall.unique hcall'
  cases hload.symm.trans hload'
  rfl

/-- The history allows what the change leaves. -/
lemma ContextChange.allows (h : ContextChange k tf k' e f) (hinv : EnvInv k)
    (hlive' : (k'.envs e).envStatus ≠ .free)
    (hold : k.curenv ≠ some e → (k.envs e).envStatus ≠ .free → (o e).Allows (k.envs e).envTf) :
    (origins k (.trap tf) k' o e).Allows f := by
  simp only [origins]
  cases h with
  | trapped hcur h =>
      rw [if_pos hcur]
      exact h
  | forked hfree hf =>
      have hcur : k.curenv ≠ some e := fun hc => hinv.cur_live e hc hfree
      rw [if_neg hcur, if_pos ⟨hfree, hlive'⟩]
      exact hf
  | given hcur hlive h =>
      have hex : ∃ frame, k.Gives tf k' e frame := ⟨f, h⟩
      rw [if_neg hcur, if_neg (fun hc => hlive hc.1), dif_pos hex]
      exact h.unique hex.choose_spec
  | kept hcur hlive hno hf =>
      rw [if_neg hcur, if_neg (fun hc => hlive hc.1),
        dif_neg (fun hex => hno _ hex.choose_spec), hf]
      exact hold hcur hlive

/-- `env_run` saves the frame below `KSTACKTOP` for the env that ran, and for no other. -/
lemma Kernel.Scheduled.envTf (h : k.Scheduled yield k') (e : ℕ) :
    (k'.envs e).envTf = if k.curenv = some e then k.ktf else (k.envs e).envTf := by
  have hrun : ∀ (k₀ : Kernel) (c : ℕ), ((k₀.running c).envs e).envTf =
      if k₀.curenv = some e then k₀.ktf else (k₀.envs e).envTf := by
    intro k₀ c
    by_cases hec : e = c
    · subst hec
      by_cases hcur : k₀.curenv = some e <;> simp [Kernel.running, hcur]
    · by_cases hcur : k₀.curenv = some e <;> simp [Kernel.running, hcur, hec]
  cases h with
  | stay => exact hrun _ _
  | pick => exact hrun _ _

/-- The context that `e` would be resumed with: the frame below `KSTACKTOP` if `e` runs. -/
def Kernel.context (k : Kernel) (e : ℕ) : Trapframe :=
  if k.curenv = some e then k.ktf else (k.envs e).envTf

lemma Kernel.Scheduled.context (h : k.Scheduled yield k') (e : ℕ) :
    (k'.envs e).envTf = k.context e := h.envTf e

lemma not_gives (hcall : tf.Calls call) (hno : ∀ envid va, call ≠ .setTrapframe envid va) :
    ∀ frame, ¬ k.Gives tf k' e frame := by
  rintro frame ⟨⟨envid, va, k₁, hcall', -⟩, -⟩
  exact hno _ _ (hcall.unique hcall')

lemma not_gives_of_noCall (hno : ∀ call, ¬ tf.Calls call) :
    ∀ frame, ¬ k.Gives tf k' e frame := by
  rintro frame ⟨⟨envid, va, k₁, hcall, -⟩, -⟩
  exact hno _ hcall

end

section

variable {k k' k₁ : Kernel} {e : ℕ} {tf f : Trapframe} {call : Syscall}
  {r : Except Exit Word} {w : Word} {gone yield : Bool} {ev : Event} {o : ℕ → Origin}

namespace ContextChange

lemma of_trapped {frame : Trapframe} (hf : f = frame) (hcur : k.curenv = some e)
    (h : tf.Handled k frame) : ContextChange k tf k' e f :=
  .trapped hcur (hf ▸ h)

lemma of_given {frame : Trapframe} (hf : f = frame) (hcur : k.curenv ≠ some e)
    (hlive : (k.envs e).envStatus ≠ .free) (h : k.Gives tf k' e frame) :
    ContextChange k tf k' e f :=
  .given hcur hlive (hf ▸ h)

/-- The handler changes neither the frame nor the saved one. -/
lemma of_same (hcall : tf.Calls call) (hcur : k₁.curenv = k.curenv)
    (hktf : k₁.ktf = (k.entering tf).ktf) (htf : (k₁.envs e).envTf = (k.envs e).envTf)
    (hlive : (k.envs e).envStatus ≠ .free)
    (hno : ∀ frame, ¬ k.Gives tf (k₁.returning w) e frame) :
    ContextChange k tf (k₁.returning w) e ((k₁.returning w).context e) := by
  have hctx : (k₁.returning w).context e =
      if k.curenv = some e then (k.entering tf).ktf.setReg 10 w else (k.envs e).envTf := by
    change (if k₁.curenv = some e then k₁.ktf.setReg 10 w else (k₁.envs e).envTf) = _
    rw [hcur, hktf, htf]
  rw [hctx]
  by_cases hce : k.curenv = some e
  · rw [if_pos hce]
    exact .trapped hce (.call hcall w)
  · rw [if_neg hce]
    exact .kept hce hlive hno rfl

/-- The handler changes an env that it has resolved, but not its saved frame. -/
lemma of_resolved {envid : Word} {checkperm : Bool} {e₀ : ℕ} {v : Env} (hinv : EnvInv k)
    (hcall : tf.Calls call) (he : (k.entering tf).Resolves envid checkperm e₀)
    (hcur : k₁.curenv = k.curenv) (hktf : k₁.ktf = (k.entering tf).ktf)
    (henvs : k₁.envs = Function.update k.envs e₀ v) (hv : v.envTf = (k.envs e₀).envTf)
    (hlive' : (k₁.envs e).envStatus ≠ .free)
    (hno : ∀ frame, ¬ k.Gives tf (k₁.returning w) e frame) :
    ContextChange k tf (k₁.returning w) e ((k₁.returning w).context e) := by
  rw [henvs] at hlive'
  by_cases hee : e = e₀
  · subst hee
    refine of_same hcall hcur hktf ?_ (hinv.live_of_resolves he.of_setKtf) hno
    rw [henvs, Function.update_self, hv]
  · rw [Function.update_of_ne hee] at hlive'
    refine of_same hcall hcur hktf ?_ hlive' hno
    rw [henvs, Function.update_of_ne hee]

/-- A system call whose handler comes back. -/
lemma returns (hinv : EnvInv k) (hcall : tf.Calls call)
    (ha : Syscall.Acts (k.entering tf) call r k₁)
    (hr : r = .ok w ∨ ∃ err, r = .error (.code err) ∧ w = -err.toWord)
    (hlive' : (k₁.envs e).envStatus ≠ .free) :
    ContextChange k tf (k₁.returning w) e ((k₁.returning w).context e) := by
  have hreg : (k₁.returning w).ktf.regs 10 = w := by simp [Kernel.returning, Trapframe.setReg]
  cases ha with
  | plain hplain hk =>
      obtain ⟨m, dev, rfl⟩ := hk
      refine of_same hcall rfl rfl rfl hlive' (not_gives hcall ?_)
      rintro _ _ rfl
      exact hplain
  | failed hno hk =>
      obtain ⟨m, dev, rfl⟩ := hk
      refine of_same hcall rfl rfl rfl hlive' fun frame hg => ?_
      obtain ⟨err, herr, rfl⟩ := hr.resolve_left (by simp)
      exact neg_toWord_ne_zero err (hreg.symm.trans hg.succeeds)
  | yield => exact absurd hr (by rintro (h | ⟨err, h, -⟩) <;> cases h)
  | @destroy envid e₀ m q he hcur hq =>
      have hne : e ≠ e₀ := by
        rintro rfl
        exact hlive' (by simp [Kernel.freed])
      have hold : ((k.entering tf).freed e₀ m q).envs e = k.envs e :=
        Function.update_of_ne hne _ _
      rw [hold] at hlive'
      exact of_same hcall rfl rfl (congrArg Env.envTf hold) hlive' (not_gives hcall (by simp))
  | destroySelf => exact absurd hr (by rintro (h | ⟨err, h, -⟩) <;> cases h)
  | setTlbModEntry he =>
      exact of_resolved hinv hcall he rfl rfl rfl rfl hlive' (not_gives hcall (by simp))
  | @notForked c e₀ pp rest prest =>
      refine of_same hcall rfl rfl ?_ ?_ (not_gives hcall (by simp))
      · by_cases hee : e = e₀ <;> simp [hee, Kernel.entering, Kernel.prepared]
      · by_cases hee : e = e₀ <;> simpa [hee, Kernel.entering, Kernel.prepared] using hlive'
  | @forked c e₀ pp i rest prest hcur hfree hpage hasid =>
      by_cases hee : e = e₀
      · subst hee
        have hmem : e ∈ k.envFreeList := by
          rw [show k.envFreeList = e :: rest from hfree]
          exact List.mem_cons_self
        have hce : k.curenv ≠ some e := fun hc => hinv.cur_live e hc (hinv.free_free e hmem)
        refine .forked (hinv.free_free e hmem) ?_
        refine (if_neg hce).trans ?_
        simp [Kernel.returning, Kernel.forked, Kernel.entering]
      · have hold : ((k.entering tf).forked c e₀ rest pp prest i).envs e = k.envs e := by
          simp [Kernel.forked, Kernel.allocated, hee, Kernel.entering]
        rw [hold] at hlive'
        exact of_same hcall rfl rfl (congrArg Env.envTf hold) hlive' (not_gives hcall (by simp))
  | wake he | block he =>
      exact of_resolved hinv hcall he rfl rfl rfl rfl hlive' (not_gives hcall (by simp))
  | sameStatus => exact of_same hcall rfl rfl rfl hlive' (not_gives hcall (by simp))
  | @setTrapframeSelf envid va c k₂ frame he hcur hload hk =>
      obtain ⟨m, dev, rfl⟩ := hk
      have hw : w = frame.regs 10 := by
        obtain hr | ⟨err, herr, -⟩ := hr
        · cases hr
          rfl
        · cases herr
      have hset : frame.setReg 10 w = frame := by
        rw [hw, Trapframe.setReg, Function.update_eq_self]
      by_cases hce : k.curenv = some e
      · obtain rfl : c = e := Option.some.inj (hcur.symm.trans hce)
        exact of_trapped ((if_pos hce).trans hset) hce
          (.setTrapframe hcall hce he.of_setKtf hload)
      · refine .kept hce hlive' (fun frame' hg => ?_) (if_neg hce)
        obtain ⟨⟨envid', va', k₁', hcall', hres, -⟩, -, -⟩ := hg
        cases hcall.unique hcall'
        exact hce (hres.unique he.of_setKtf ▸ hcur)
  | @setTrapframe envid va e₀ k₂ frame he hcur hload hk =>
      obtain ⟨m, dev, rfl⟩ := hk
      have hw : w = 0#32 := by
        obtain hr | ⟨err, herr, -⟩ := hr
        · cases hr
          rfl
        · cases herr
      by_cases hee : e = e₀
      · subst hee
        have hce : k.curenv ≠ some e := hcur
        have hres := he.of_setKtf
        have hctx : ∀ v : Env,
            (Function.update k.envs e { v with envTf := frame } e).envTf = frame :=
          fun v => by rw [Function.update_self]
        exact of_given ((if_neg hce).trans (hctx _)) hce (hinv.live_of_resolves hres)
          ⟨⟨envid, va, _, hcall, hres, hload⟩, hinv.parent_of_resolves hres hce, hreg.trans hw⟩
      · have hold : ∀ k₂ : Kernel, k₂.envs = k.envs →
            Function.update k₂.envs e₀ { k₂.envs e₀ with envTf := frame } e = k.envs e := by
          intro k₂ h
          rw [Function.update_of_ne hee, h]
        refine of_same hcall rfl rfl (congrArg Env.envTf (hold _ rfl)) ?_ fun frame' hg => ?_
        · rw [← hold _ rfl]
          exact hlive'
        · obtain ⟨⟨envid', va', k₁', hcall', hres, -⟩, -, -⟩ := hg
          cases hcall.unique hcall'
          exact hee (hres.unique he.of_setKtf)
  | sent he _ _ _ hk =>
      obtain ⟨m, dev, rfl⟩ := hk
      exact of_resolved hinv hcall he rfl rfl rfl rfl hlive' (not_gives hcall (by simp))
  | sentLate _ _ _ he _ _ _ hk =>
      obtain ⟨m, dev, rfl⟩ := hk
      exact of_resolved hinv hcall he rfl rfl rfl rfl hlive' (not_gives hcall (by simp))
  | received => exact absurd hr (by rintro (h | ⟨err, h, -⟩) <;> cases h)

end ContextChange

end

section

variable {mc : Machine} {C : Kernel → Event → Prop} {k k' k₁ : Kernel} {e : ℕ} {tf f : Trapframe}
  {call : Syscall} {gone yield : Bool} {ev : Event} {x : Kernel × (ℕ → Origin)}

namespace ContextChange

/-- A system call that goes into `schedule`. -/
lemma switches (hcall : tf.Calls call)
    (ha : Syscall.Acts (k.entering tf) call (.error .popTf) k')
    (hlive' : (k'.envs e).envStatus ≠ .free) :
    ContextChange k tf k' e (k'.envs e).envTf := by
  cases ha with
  | yield hs =>
      rw [hs.context e]
      rw [(hs.switched.envs e).envStatus] at hlive'
      by_cases hce : k.curenv = some e
      · exact of_trapped (if_pos hce) hce (.yield hcall)
      · exact .kept hce hlive' (not_gives hcall (by simp)) (if_neg hce)
  | @destroySelf envid c m q k' he hcur hq hs =>
      -- `curenv` is reset: what is below `KSTACKTOP` is saved nowhere
      rw [hs.context e]
      rw [(hs.switched.envs e).envStatus] at hlive'
      have hec : e ≠ c := by
        rintro rfl
        exact hlive' (by simp [Kernel.freed])
      have hold : ((k.entering tf).freed c m q).envs e = k.envs e := Function.update_of_ne hec _ _
      have hce : k.curenv ≠ some e := fun hc => hec (Option.some.inj (hc.symm.trans hcur))
      refine .kept hce (hold ▸ hlive') (not_gives hcall (by simp)) ?_
      exact (if_neg (by simp)).trans (congrArg Env.envTf hold)
  | @received dstva c q k' hwaits hcur hq hs =>
      rw [hs.context e]
      rw [(hs.switched.envs e).envStatus] at hlive'
      by_cases hce : k.curenv = some e
      · exact of_trapped (if_pos hce) hce (.call hcall 0#32)
      · have hec : e ≠ c := fun hec => hce (hec ▸ hcur)
        have hold : ((k.entering tf).receiving c dstva q).envs e = k.envs e :=
          Function.update_of_ne hec _ _
        refine .kept hce (hold ▸ hlive') (not_gives hcall (by simp)) ?_
        exact (if_neg hce).trans (congrArg Env.envTf hold)

/-- **What a trap does to the context of an env.** -/
lemma trap (hinv : EnvInv k) (ha : tf.Acts k gone k') (hlive' : (k'.envs e).envStatus ≠ .free) :
    ContextChange k tf k' e (if gone then (k'.envs e).envTf else k'.context e) := by
  have hcall_of : ∀ {c : Word}, tf.cause = c → c ≠ CAUSE_USER_ECALL →
      (∀ frame, ¬ k.Gives tf k' e frame) ∧ tf.cause ≠ CAUSE_USER_ECALL := by
    rintro c rfl hne
    exact ⟨not_gives_of_noCall fun call hcall => hne hcall.1, hne⟩
  cases ha with
  | tick hcause hs =>
      have hne : tf.cause ≠ CAUSE_USER_ECALL := by
        intro hc
        rw [hc] at hcause
        exact absurd hcause (by decide)
      rw [if_pos rfl, hs.context e]
      rw [(hs.switched.envs e).envStatus] at hlive'
      by_cases hce : k.curenv = some e
      · exact of_trapped (if_pos hce) hce (.same hne)
      · exact .kept hce hlive' (hcall_of rfl hne).1 (if_neg hce)
  | noCall hcause hnone =>
      by_cases hce : k.curenv = some e
      · exact of_trapped (if_pos hce) hce (.noCall hcause hnone)
      · refine .kept hce hlive' (not_gives_of_noCall fun call hcall => ?_) (if_neg hce)
        exact absurd (hnone.symm.trans hcall.2) nofun
  | call hcall hs => exact returns hinv hcall hs (.inl rfl) hlive'
  | callFailed hcall hs => exact returns hinv hcall hs (.inr ⟨_, rfl, rfl⟩) hlive'
  | callGone hcall hs => exact switches hcall hs hlive'
  | fault hcause hk =>
      obtain ⟨m, dev, rfl⟩ := hk
      have hne : tf.cause ≠ CAUSE_USER_ECALL := by
        obtain h | h := hcause <;> rw [h] <;> decide
      by_cases hce : k.curenv = some e
      · exact of_trapped (if_pos hce) hce (.same hne)
      · exact .kept hce hlive' (hcall_of rfl hne).1 (if_neg hce)
  | queryVpt instr w hcause hwindow hinstr hk =>
      obtain ⟨m, dev, rfl⟩ := hk
      by_cases hce : k.curenv = some e
      · exact of_trapped (if_pos hce) hce (.queryVpt w hcause hwindow hinstr)
      · exact .kept hce hlive' (hcall_of hcause (by decide)).1 (if_neg hce)
  | userMod hcause hk hcur =>
      obtain ⟨m, dev, rfl⟩ := hk
      by_cases hce : k.curenv = some e
      · exact of_trapped (if_pos hce) hce (.userMod hcause hcur)
      · exact .kept hce hlive' (hcall_of hcause (by decide)).1 (if_neg hce)

end ContextChange

/-! ## Along a run -/

/-- What is saved for the envs that do not run is what their history allows. -/
def SavedOk (x : Kernel × (ℕ → Origin)) : Prop :=
  ∀ e, (x.1.envs e).envStatus ≠ .free → x.1.curenv ≠ some e → (x.2 e).Allows (x.1.envs e).envTf

/-- **One trap**: the context of every live env is what its history allows then. -/
lemma SavedOk.trap (h : SavedOk x) (hinv : EnvInv x.1) (ha : tf.Acts x.1 gone k')
    (hlive' : (k'.envs e).envStatus ≠ .free) :
    (origins x.1 (.trap tf) k' x.2 e).Allows (if gone then (k'.envs e).envTf else k'.context e) :=
  (ContextChange.trap hinv ha hlive').allows hinv hlive' fun hcur hlive => h e hlive hcur

/-- One event. -/
lemma SavedOk.event (h : SavedOk x) (hinv : EnvInv x.1) (ha : ev.Acts x.1 k') :
    SavedOk (k', origins x.1 ev k' x.2) := by
  intro e hlive' hcur'
  cases ha with
  | @create img priority e₀ pp i rest prest q k' hcur hfree hpage hasid hq hk =>
      obtain ⟨m, dev, rfl⟩ := hk
      simp only [origins]
      by_cases hee : e = e₀
      · subst hee
        rw [if_pos ⟨hinv.free_free e (by simp [hfree]), hlive'⟩]
        simp [Origin.Allows, Kernel.created, Kernel.newborn, Trapframe.setReg]
      · have hold : (x.1.created e₀ rest pp prest i priority img.eEntry x.1.pm q).envs e =
            x.1.envs e := by
          simp [Kernel.created, Kernel.newborn, hee]
        have hlive : (x.1.envs e).envStatus ≠ .free := hold ▸ hlive'
        rw [if_neg (fun hc => hlive hc.1)]
        exact congrArg Env.envTf hold ▸ h e hlive hcur'
  | @trap tf gone k' hen ht =>
      have ha := h.trap hinv ht hlive'
      cases gone with
      | true => exact ha
      | false => exact (if_neg hcur' : k'.context e = _) ▸ ha
  | store _ hk =>
      obtain ⟨m, dev, rfl⟩ := hk
      exact h e hlive' hcur'

lemma ReachesOrigins.savedOk (h : ReachesOrigins mc C x) : EnvInv x.1 ∧ SavedOk x := by
  refine Reachable.invariant (I := fun x => EnvInv x.1 ∧ SavedOk x) h ?_ ?_
  · rintro ⟨k, o⟩ hboots
    exact ⟨.boots hboots, fun e he => absurd (Machine.Boots.env_free hboots e) he⟩
  · rintro ⟨k, o⟩ ev ⟨k', o'⟩ ⟨hinv, hsaved⟩ ⟨-, hstep, ho⟩
    have ha := hstep.acts
    refine ⟨hinv.event ha, ?_⟩
    rw [show o' = origins k ev k' o from ho]
    exact hsaved.event hinv ha

/-- **Context switches preserve every env's registers**: in every run of any events, an env that
goes back to user mode after a trap does so with a frame that its own history allows. -/
theorem contexts_preserved (h : ReachesOrigins mc C x) (hres : Resumes x.1 tf k' e f) :
    (origins x.1 (.trap tf) k' x.2 e).Allows f := by
  obtain ⟨hinv, hsaved⟩ := h.savedOk
  cases hres with
  | returns hrun hcur =>
      have ha := (Trapframe.acts x.1 tf).of_ok hrun
      have hlive := (hinv.trap ha).cur_live e hcur
      exact (if_pos hcur : k'.context e = _) ▸ hsaved.trap hinv ha hlive
  | switches hrun hcur =>
      have ha := ((Trapframe.acts x.1 tf).of_exit hrun).2
      exact hsaved.trap hinv ha ((hinv.trap ha).cur_live e hcur)

/-- A trap that does not stop the machine goes back to user mode. -/
lemma Step.resumes (h : Step k (.trap tf) k') (hcur : k'.curenv = some e) :
    ∃ f, Resumes k tf k' e f := by
  obtain ⟨-, hok | hexit⟩ := h
  · exact ⟨_, .returns hok hcur⟩
  · exact ⟨_, .switches hexit hcur⟩

/-- A run, with its history. -/
lemma Reaches.exists_origins (h : Reaches mc C k) : ∃ o, ReachesOrigins mc C (k, o) := by
  induction h with
  | init h => exact ⟨fun _ => .created 0#32, .init h⟩
  | step _ h ih =>
      obtain ⟨o, ho⟩ := ih
      exact ⟨origins _ _ _ o, Reachable.step ho ⟨h.1, h.2, rfl⟩⟩

/-- On the small machine, env 1 waits for a message, and env 0 is resumed. -/
theorem contexts_preserved_switch : ∃ x tf k' f,
    ReachesOrigins (smallMachine false) (fun _ _ => True) x ∧ x.1.curenv = some 1 ∧
      Resumes x.1 tf k' 0 f ∧ (origins x.1 (.trap tf) k' x.2 0).Allows f := by
  obtain ⟨k₀, T, k, hk₀, hk, -, hcur, hpop⟩ := exists_started false
    (C := fun _ _ => True) (fun _ _ => trivial) (fun _ => trivial) (show 1 < NASID by decide)
  obtain ⟨o, ho⟩ := (hk.reaches hk₀).exists_origins
  obtain ⟨k', hstep, hrecv⟩ := hpop.recv hcur
  obtain ⟨f, hres⟩ := hstep.resumes hrecv.cur
  exact ⟨(k, o), _, k', f, ho, hcur, hres, contexts_preserved ho hres⟩

end

end MosRv
