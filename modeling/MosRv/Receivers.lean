import MosRv.EnvInv
import MosRv.Sends

/-!
# Who is waiting for a message

`env_ipc_recving` is meant to say that an env has called `sys_ipc_recv` and has not been sent
anything since.  `waiting` keeps that history along a run, and `RecvOk` compares.

Three things break it, each in one step: a send that fails late (`Kernel.SentInVain`), a parent that
makes a child runnable while it waits, and the reuse of a slot whose last env died waiting, for
`env_alloc` does not clear the flag.  In a run without them (`KeepsReceivers`) the flag is right in
every state.
-/

namespace MosRv

open Prog Reach

/-! ## The history -/

/-- `e` calls `sys_ipc_recv`, and blocks. -/
def Event.Receives (k : Kernel) (e : ℕ) : Event → Prop
  | .trap tf => k.curenv = some e ∧ ∃ call, tf.Calls call ∧ call.Waits
  | _ => False

/-- A send to `e` succeeds: it returns 0. -/
def Event.SentTo (k k' : Kernel) (e : ℕ) : Event → Prop
  | .trap tf => (∃ envid value srcva perm, tf.Calls (.ipcTrySend envid value srcva perm) ∧
      k.Resolves envid false e) ∧ k'.ktf.regs 10 = 0#32
  | _ => False

/-- `e` is created. -/
def Kernel.Created (k k' : Kernel) (e : ℕ) : Prop :=
  (k.envs e).envStatus = .free ∧ (k'.envs e).envStatus ≠ .free

/-- The envs that, since their creation, have called `sys_ipc_recv` and have not been sent anything
after that. -/
def waiting (k : Kernel) (ev : Event) (k' : Kernel) (w : Set ℕ) : Set ℕ :=
  {e | ¬ k.Created k' e ∧ (ev.Receives k e ∨ (e ∈ w ∧ ¬ ev.SentTo k k' e))}

/-- The runs of the machine with the history. -/
def ReachesWaiting (mc : Machine) (C : Kernel → Event → Prop) : Kernel × Set ℕ → Prop :=
  Reachable (fun x => mc.Boots x.1 ∧ x.2 = ∅)
    (When (fun x ev => C x.1 ev) (Tracked waiting Step))

/-- **The flags are right**, and what follows for sends. -/
structure RecvOk (x : Kernel × Set ℕ) : Prop where
  recving_iff : ∀ e, (x.1.envs e).envStatus ≠ .free → ((x.1.envs e).envIpcRecving ≠ 0#32 ↔ e ∈ x.2)
  blocked : ∀ e, (x.1.envs e).envStatus ≠ .free → (x.1.envs e).envIpcRecving ≠ 0#32 →
    (x.1.envs e).envStatus = .notRunnable
  send : ∀ envid value srcva perm r k', sysIpcTrySend envid value srcva perm x.1 = .ok r k' →
    ∃ e, x.1.Resolves envid false e ∧ e ∈ x.2 ∧ (x.1.envs e).envStatus = .notRunnable

/-! ## What keeps the flags right -/

/-- An env is about to be made, and there is what it takes. -/
def Event.Creates (k : Kernel) : Event → Prop
  | .create _ _ => k.pm.pageFreeList ≠ [] ∧ k.HasAsid
  | .trap tf => tf.Calls .exofork ∧ k.pm.pageFreeList ≠ [] ∧ k.HasAsid
  | .store _ _ => False

/-- The event is none of the three that break the flags. -/
structure KeepsReceivers (k : Kernel) (ev : Event) : Prop where
  sends : ∀ tf envid value srcva perm, ev = .trap tf →
    tf.Calls (.ipcTrySend envid value srcva perm) → ¬ ∃ c e, k.SentInVain envid srcva c e
  wakes : ∀ tf envid, ev = .trap tf →
    tf.Calls (.setEnvStatus envid EnvStatus.runnable.toWord) → ∀ e, k.Resolves envid true e →
      (k.envs e).envIpcRecving = 0#32
  births : ev.Creates k → ∀ e rest, k.envFreeList = e :: rest → (k.envs e).envIpcRecving = 0#32

/-- The invariant, one env at a time. -/
structure RecvAt (k : Kernel) (w : Set ℕ) (e : ℕ) : Prop where
  recving_iff : (k.envs e).envIpcRecving ≠ 0#32 ↔ e ∈ w
  blocked : (k.envs e).envIpcRecving ≠ 0#32 → (k.envs e).envStatus = .notRunnable

/-- What an event can do to the flag of an env that is live afterwards. -/
inductive FlagChange (k : Kernel) (ev : Event) (k' : Kernel) (e : ℕ) : Prop
  | born (hfree : (k.envs e).envStatus = .free) (hrecv : (k'.envs e).envIpcRecving = 0#32)
  | same (hlive : (k.envs e).envStatus ≠ .free)
      (hrecv : (k'.envs e).envIpcRecving = (k.envs e).envIpcRecving)
      (hstatus : (k.envs e).envIpcRecving ≠ 0#32 → (k.envs e).envStatus = .notRunnable →
        (k'.envs e).envStatus = .notRunnable)
      (hno : ¬ ev.Receives k e ∧ ¬ ev.SentTo k k' e)
  | received (hlive : (k.envs e).envStatus ≠ .free) (h : ev.Receives k e)
      (hrecv : (k'.envs e).envIpcRecving ≠ 0#32) (hstatus : (k'.envs e).envStatus = .notRunnable)
  | sent (hlive : (k.envs e).envStatus ≠ .free) (h : ev.SentTo k k' e) (hno : ¬ ev.Receives k e)
      (hrecv : (k'.envs e).envIpcRecving = 0#32)

section

variable {k k' : Kernel} {ev : Event} {e : ℕ} {w : Set ℕ} {tf : Trapframe} {call : Syscall}

lemma FlagChange.recvAt (h : FlagChange k ev k' e) (hlive' : (k'.envs e).envStatus ≠ .free)
    (hinv : (k.envs e).envStatus ≠ .free → RecvAt k w e) : RecvAt k' (waiting k ev k' w) e := by
  have hmem : e ∈ waiting k ev k' w ↔
      ¬ k.Created k' e ∧ (ev.Receives k e ∨ (e ∈ w ∧ ¬ ev.SentTo k k' e)) := Iff.rfl
  cases h with
  | born hfree hrecv =>
      have hno : e ∉ waiting k ev k' w := fun h => h.1 ⟨hfree, hlive'⟩
      exact ⟨iff_of_false (not_not.mpr hrecv) hno, fun hne => absurd hrecv hne⟩
  | same hlive hrecv hstatus hno =>
      have hat := hinv hlive
      have hcr : ¬ k.Created k' e := fun hc => hlive hc.1
      refine ⟨?_, fun hne => ?_⟩
      · rw [hmem, hrecv, hat.recving_iff]
        tauto
      · rw [hrecv] at hne
        exact hstatus hne (hat.blocked hne)
  | received hlive h hrecv hstatus =>
      exact ⟨iff_of_true hrecv ⟨fun hc => hlive hc.1, .inl h⟩, fun _ => hstatus⟩
  | sent hlive h hno hrecv =>
      refine ⟨iff_of_false (not_not.mpr hrecv) fun hw => ?_, fun hne => absurd hrecv hne⟩
      exact hw.2.elim hno fun hw => hw.2 h

lemma Trapframe.Calls.unique {call' : Syscall} (h : tf.Calls call) (h' : tf.Calls call') :
    call = call' := Option.some.inj (h.2.symm.trans h'.2)

lemma Kernel.Resolves.of_setKtf {envid : Word} {checkperm : Bool}
    (h : { k with ktf := tf }.Resolves envid checkperm e) : k.Resolves envid checkperm e := by
  cases h with
  | self h0 hcur => exact .self h0 hcur
  | other h0 hlive hid hperm => exact .other h0 hlive hid hperm

end

/-! ## One event -/

section

variable {k k' k₁ : Kernel} {ev : Event} {e : ℕ} {tf : Trapframe} {call : Syscall}
  {r : Except Exit Word}

lemma Kernel.Resolves.unique {envid : Word} {checkperm : Bool} {e' : ℕ}
    (h : k.Resolves envid checkperm e) (h' : k.Resolves envid checkperm e') : e = e' := by
  cases h with
  | self h0 hcur =>
      cases h' with
      | self _ hcur' => exact Option.some.inj (hcur.symm.trans hcur')
      | other h0' => exact absurd h0 h0'
  | other h0 =>
      cases h' with
      | self h0' => exact absurd h0' h0
      | other => rfl

lemma not_receives (hcall : tf.Calls call) (hno : ¬ call.Waits) :
    ¬ (Event.trap tf).Receives k e := by
  rintro ⟨-, call', hcall', hw⟩
  exact hno (hcall.unique hcall' ▸ hw)

lemma not_sentTo (hcall : tf.Calls call)
    (hno : ∀ envid value srcva perm, call ≠ .ipcTrySend envid value srcva perm) :
    ¬ (Event.trap tf).SentTo k k' e := by
  rintro ⟨⟨envid, value, srcva, perm, hcall', -⟩, -⟩
  exact hno _ _ _ _ (hcall.unique hcall')

lemma neg_toWord_ne_zero (err : Err) : -err.toWord ≠ 0#32 := by
  cases err <;> decide

namespace FlagChange

/-- Status and flag are the same. -/
lemma of_same (hstatus : (k'.envs e).envStatus = (k.envs e).envStatus)
    (hrecv : (k'.envs e).envIpcRecving = (k.envs e).envIpcRecving)
    (hlive' : (k'.envs e).envStatus ≠ .free) (hr : ¬ ev.Receives k e) (hs : ¬ ev.SentTo k k' e) :
    FlagChange k ev k' e :=
  .same (hstatus ▸ hlive') hrecv (fun _ h => hstatus.trans h) ⟨hr, hs⟩

/-- A system call, in the state `k₁` that its handler leaves. -/
lemma syscall (hinv : EnvInv k) (hcall : tf.Calls call) (hC : KeepsReceivers k (.trap tf))
    (ha : Syscall.Acts (k.entering tf) call r k₁) (henvs : k'.envs = k₁.envs)
    (hok : ∀ w, r = .ok w → k'.ktf.regs 10 = w)
    (herr : ∀ err, r = .error (.code err) → k'.ktf.regs 10 = -err.toWord)
    (hlive' : (k'.envs e).envStatus ≠ .free) : FlagChange k (.trap tf) k' e := by
  rw [henvs] at hlive'
  cases ha with
  | plain hplain hk =>
      obtain ⟨m, dev, rfl⟩ := hk
      refine of_same (by rw [henvs]; rfl) (by rw [henvs]; rfl) (by rwa [henvs])
        (not_receives hcall hplain.not_waits) (not_sentTo hcall ?_)
      rintro _ _ _ _ rfl
      exact hplain
  | failed hno hk =>
      obtain ⟨m, dev, rfl⟩ := hk
      refine of_same (by rw [henvs]; rfl) (by rw [henvs]; rfl) (by rwa [henvs])
        (not_receives hcall hno) fun hs => ?_
      exact neg_toWord_ne_zero _ ((herr _ rfl).symm.trans hs.2)
  | yield hs =>
      have hsame := hs.switched.envs e
      exact of_same (by rw [henvs]; exact hsame.envStatus)
        (by rw [henvs]; exact hsame.envIpcRecving)
        (by rwa [henvs]) (not_receives hcall id) (not_sentTo hcall (by simp))
  | @destroy envid e₀ m q he hcur hq =>
      have hne : e ≠ e₀ := by
        rintro rfl
        exact hlive' (by simp [Kernel.freed])
      have hold : (k'.envs e) = k.envs e := by
        rw [henvs]
        exact Function.update_of_ne hne _ _
      exact of_same (by rw [hold]) (by rw [hold]) (by rwa [henvs]) (not_receives hcall id)
        (not_sentTo hcall (by simp))
  | @destroySelf envid e₀ m q k' he hcur hq hs =>
      have hsame := hs.switched.envs e
      have hne : e ≠ e₀ := by
        rintro rfl
        exact hlive' (hsame.envStatus.trans (by simp [Kernel.freed]))
      have hold : ((k.entering tf).freed e₀ m q).envs e = k.envs e :=
        Function.update_of_ne hne _ _
      refine of_same ?_ ?_ (by rwa [henvs]) (not_receives hcall id) (not_sentTo hcall (by simp))
      · rw [henvs, hsame.envStatus]
        exact congrArg Env.envStatus hold
      · rw [henvs, hsame.envIpcRecving]
        exact congrArg Env.envIpcRecving hold
  | @setTlbModEntry envid func e₀ he =>
      refine of_same ?_ ?_ (by rwa [henvs]) (not_receives hcall id) (not_sentTo hcall (by simp))
      · rw [henvs]
        by_cases hee : e = e₀ <;> simp [hee, Kernel.entering]
      · rw [henvs]
        by_cases hee : e = e₀ <;> simp [hee, Kernel.entering]
  | @notForked c e₀ pp rest prest =>
      refine of_same ?_ ?_ (by rwa [henvs]) (not_receives hcall id) (not_sentTo hcall (by simp))
      · rw [henvs]
        by_cases hee : e = e₀ <;> simp [hee, Kernel.entering, Kernel.prepared]
      · rw [henvs]
        by_cases hee : e = e₀ <;> simp [hee, Kernel.entering, Kernel.prepared]
  | @forked c e₀ pp i rest prest hcur hfree hpage hasid =>
      by_cases hee : e = e₀
      · subst hee
        have hasid' : k.HasAsid := by
          intro hno
          exact absurd (hasid.symm.trans hno) (by simp)
        have hpage' : k.pm.pageFreeList ≠ [] := fun hno => absurd (hpage.symm.trans hno) (by simp)
        refine .born (hinv.free_free e ?_) ?_
        · rw [show k.envFreeList = e :: rest from hfree]
          exact List.mem_cons_self
        · rw [henvs]
          simp only [Kernel.forked, Kernel.allocated, Function.update_self, Function.update_idem]
          exact hC.births ⟨hcall, hpage', hasid'⟩ e rest hfree
      · have hold : k'.envs e = k.envs e := by
          rw [henvs]
          simp only [Kernel.forked, Kernel.allocated, Function.update_self, Function.update_idem,
            Function.update_of_ne hee]
          rfl
        exact of_same (by rw [hold]) (by rw [hold]) (by rwa [henvs]) (not_receives hcall id)
          (not_sentTo hcall (by simp))
  | @wake envid e₀ q he hstatus hq =>
      have he' := he.of_setKtf
      have hrecv : (k'.envs e).envIpcRecving = (k.envs e).envIpcRecving := by
        rw [henvs]
        by_cases hee : e = e₀ <;> simp [hee, Kernel.withStatus, Kernel.entering]
      have hno : ¬ (Event.trap tf).Receives k e ∧ ¬ (Event.trap tf).SentTo k k' e :=
        ⟨not_receives hcall id, not_sentTo hcall (by simp)⟩
      by_cases hee : e = e₀
      · subst hee
        exact .same (hinv.live_of_resolves he') hrecv
          (fun hne => absurd (hC.wakes tf envid rfl hcall e he') hne) hno
      · refine of_same ?_ hrecv (by rwa [henvs]) hno.1 hno.2
        rw [henvs]
        simp [hee, Kernel.withStatus, Kernel.entering]
  | @block envid e₀ q he hstatus hq =>
      have hrecv : (k'.envs e).envIpcRecving = (k.envs e).envIpcRecving := by
        rw [henvs]
        by_cases hee : e = e₀ <;> simp [hee, Kernel.withStatus, Kernel.entering]
      have hno : ¬ (Event.trap tf).Receives k e ∧ ¬ (Event.trap tf).SentTo k k' e :=
        ⟨not_receives hcall id, not_sentTo hcall (by simp)⟩
      by_cases hee : e = e₀
      · subst hee
        refine .same (hinv.live_of_resolves he.of_setKtf) hrecv (fun _ _ => ?_) hno
        rw [henvs]
        simp [Kernel.withStatus]
      · refine of_same ?_ hrecv (by rwa [henvs]) hno.1 hno.2
        rw [henvs]
        simp [hee, Kernel.withStatus, Kernel.entering]
  | sameStatus =>
      exact of_same (by rw [henvs]; rfl) (by rw [henvs]; rfl) (by rwa [henvs])
        (not_receives hcall id) (not_sentTo hcall (by simp))
  | setTrapframeSelf he hcur _ hk =>
      obtain ⟨m, dev, rfl⟩ := hk
      exact of_same (by rw [henvs]; rfl) (by rw [henvs]; rfl) (by rwa [henvs])
        (not_receives hcall id) (not_sentTo hcall (by simp))
  | @setTrapframe envid va e₀ k₂ frame he hcur _ hk =>
      obtain ⟨m, dev, rfl⟩ := hk
      refine of_same ?_ ?_ (by rwa [henvs]) (not_receives hcall id) (not_sentTo hcall (by simp))
      · rw [henvs]
        by_cases hee : e = e₀ <;> simp [hee, Kernel.entering]
      · rw [henvs]
        by_cases hee : e = e₀ <;> simp [hee, Kernel.entering]
  | @sent envid value srcva perm c e₀ q k₂ he hcur hrecv hq hk =>
      obtain ⟨m, dev, rfl⟩ := hk
      have he' := he.of_setKtf
      by_cases hee : e = e₀
      · subst hee
        refine .sent (hinv.live_of_resolves he')
          ⟨⟨envid, value, srcva, perm, hcall, he'⟩, hok _ rfl⟩
          (not_receives hcall id) ?_
        rw [henvs]
        simp [Kernel.woken]
      · refine of_same ?_ ?_ (by rwa [henvs]) (not_receives hcall id) ?_
        · rw [henvs]
          simp [Kernel.woken, hee, Kernel.entering]
        · rw [henvs]
          simp [Kernel.woken, hee, Kernel.entering]
        · rintro ⟨⟨envid', value', srcva', perm', hcall', hres⟩, -⟩
          cases hcall.unique hcall'
          exact hee (hres.unique he')
  | @sentLate envid value srcva perm c e₀ q k₂ err hsrc hproper hwhy he hcur hrecv hq hk =>
      have hlisted : (TailQueue.Op.insertTail e₀).apply k.envSchedList ≠ none := fun hno =>
        absurd (hq.symm.trans hno) (by simp)
      exact absurd ⟨c, e₀, hsrc, he.of_setKtf, hcur, hrecv, ⟨hproper, hlisted⟩, hwhy⟩
        (hC.sends tf envid value srcva perm rfl hcall)
  | @received dstva c q k₂ hwaits hcur hq hs =>
      have hsame := hs.switched.envs e
      by_cases hee : e = c
      · subst hee
        refine .received (hinv.cur_live e hcur) ⟨hcur, _, hcall, hwaits⟩ ?_ ?_
        · rw [henvs, hsame.envIpcRecving]
          simp [Kernel.receiving]
        · rw [henvs, hsame.envStatus]
          simp [Kernel.receiving]
      · refine of_same ?_ ?_ (by rwa [henvs]) ?_ (not_sentTo hcall (by simp))
        · rw [henvs, hsame.envStatus]
          simp [Kernel.receiving, hee, Kernel.entering]
        · rw [henvs, hsame.envIpcRecving]
          simp [Kernel.receiving, hee, Kernel.entering]
        · rintro ⟨hc, -⟩
          exact hee (Option.some.inj (hc.symm.trans hcur))

end FlagChange

end

section

variable {mc : Machine} {C : Kernel → Event → Prop} {k k' : Kernel} {ev : Event} {e : ℕ}
  {tf : Trapframe} {x : Kernel × Set ℕ}

namespace FlagChange

/-- A trap that is no system call, or none the kernel knows. -/
lemma of_noCall (hno : ∀ call, ¬ tf.Calls call)
    (hsame : (k.envs e).SameButContext (k'.envs e)) (hlive' : (k'.envs e).envStatus ≠ .free) :
    FlagChange k (.trap tf) k' e := by
  refine of_same hsame.envStatus hsame.envIpcRecving hlive' ?_ ?_
  · rintro ⟨-, call, hcall, -⟩
    exact hno call hcall
  · rintro ⟨⟨_, _, _, _, hcall, -⟩, -⟩
    exact hno _ hcall

/-- **What an event does to the flag of an env.** -/
lemma event (hinv : EnvInv k) (ha : ev.Acts k k') (hC : KeepsReceivers k ev)
    (hlive' : (k'.envs e).envStatus ≠ .free) : FlagChange k ev k' e := by
  cases ha with
  | @create img priority e₀ pp i rest prest q k' hcur hfree hpage hasid hq hk =>
      obtain ⟨m, dev, rfl⟩ := hk
      by_cases hee : e = e₀
      · subst hee
        have hasid' : k.HasAsid := fun hno => absurd (hasid.symm.trans hno) (by simp)
        have hpage' : k.pm.pageFreeList ≠ [] := fun hno => absurd (hpage.symm.trans hno) (by simp)
        refine .born (hinv.free_free e (by simp [hfree])) ?_
        simp only [Kernel.created, Kernel.newborn, Function.update_self]
        exact hC.births ⟨hpage', hasid'⟩ e rest hfree
      · refine of_same ?_ ?_ hlive' id id
        · simp [Kernel.created, Kernel.newborn, hee]
        · simp [Kernel.created, Kernel.newborn, hee]
  | @trap tf gone k' hen ht =>
      have hreg : ∀ (k₁ : Kernel) (w : Word), (k₁.ktf.setReg 10 w).regs 10 = w :=
        fun k₁ w => by simp [Trapframe.setReg]
      cases ht with
      | tick hcause hs =>
          refine of_noCall (fun call hcall => ?_) (hs.switched.envs e) hlive'
          rw [hcall.1] at hcause
          exact absurd hcause (by decide)
      | noCall _ hnone =>
          exact of_noCall (fun call hcall => absurd (hnone.symm.trans hcall.2) (by simp)) .refl
            hlive'
      | call hcall hs =>
          exact syscall hinv hcall hC hs rfl (fun w hw => by cases hw; exact hreg _ _) (by simp)
            hlive'
      | callFailed hcall hs =>
          exact syscall hinv hcall hC hs rfl (by simp) (fun err hw => by cases hw; exact hreg _ _)
            hlive'
      | callGone hcall hs => exact syscall hinv hcall hC hs rfl (by simp) (by simp) hlive'
      | fault hcause hk =>
          obtain ⟨m, dev, rfl⟩ := hk
          refine of_noCall (fun call hcall => ?_) .refl hlive'
          rw [hcall.1] at hcause
          exact absurd hcause (by decide)
      | queryVpt _ _ hcause _ _ hk =>
          obtain ⟨m, dev, rfl⟩ := hk
          refine of_noCall (fun call hcall => ?_) .refl hlive'
          rw [hcall.1] at hcause
          exact absurd hcause (by decide)
      | userMod hcause hk =>
          obtain ⟨m, dev, rfl⟩ := hk
          refine of_noCall (fun call hcall => ?_) .refl hlive'
          rw [hcall.1] at hcause
          exact absurd hcause (by decide)
  | store _ hk =>
      obtain ⟨m, dev, rfl⟩ := hk
      exact of_same rfl rfl hlive' id id

end FlagChange

/-- A send succeeds only to an env whose flag is set. -/
lemma sysIpcTrySend_ok {envid value srcva perm r : Word}
    (h : sysIpcTrySend envid value srcva perm k = .ok r k') :
    ∃ e, k.Resolves envid false e ∧ (k.envs e).envIpcRecving ≠ 0#32 := by
  cases (Syscall.acts (.ipcTrySend envid value srcva perm)).of_ok h with
  | plain hplain => exact hplain.elim
  | sent he _ hrecv => exact ⟨_, he, hrecv⟩

/-- The two invariants, along a run. -/
lemma ReachesWaiting.recvAt (h : ReachesWaiting mc KeepsReceivers x) :
    EnvInv x.1 ∧ ∀ e, (x.1.envs e).envStatus ≠ .free → RecvAt x.1 x.2 e := by
  refine Reachable.invariant (I := fun x => EnvInv x.1 ∧
    ∀ e, (x.1.envs e).envStatus ≠ .free → RecvAt x.1 x.2 e) h ?_ ?_
  · rintro ⟨k, w⟩ ⟨hboots, rfl⟩
    exact ⟨.boots hboots, fun e he => absurd (hboots.env_free e) he⟩
  · rintro ⟨k, w⟩ ev ⟨k', w'⟩ ⟨hinv, hat⟩ ⟨hC, hstep, hw⟩
    have ha := hstep.acts
    refine ⟨hinv.event ha, fun e he => ?_⟩
    change RecvAt k' w' e
    rw [show w' = waiting k ev k' w from hw]
    exact (FlagChange.event hinv ha hC he).recvAt he (hat e)

/-- **The receiving flags are right** in every state of every run in which no send fails late, no
waiting env is made runnable by its parent, and no slot is taken whose flag is set. -/
theorem recving_flags_right (h : ReachesWaiting mc KeepsReceivers x) : RecvOk x := by
  obtain ⟨hinv, hat⟩ := h.recvAt
  refine ⟨fun e he => (hat e he).recving_iff, fun e he => (hat e he).blocked, ?_⟩
  intro envid value srcva perm r k' hrun
  obtain ⟨e, he, hrecv⟩ := sysIpcTrySend_ok hrun
  have hlive := hinv.live_of_resolves he
  exact ⟨e, he, (hat e hlive).recving_iff.mp hrecv, (hat e hlive).blocked hrecv⟩

lemma ReachesWaiting.step {w : Set ℕ} (h : ReachesWaiting mc C (k, w)) (hC : C k ev)
    (hs : Step k ev k') : ReachesWaiting mc C (k', waiting k ev k' w) :=
  Reachable.step h ⟨hC, hs, rfl⟩

/-- A run, with its history. -/
lemma Reaches.exists_waiting (h : Reaches mc C k) : ∃ w, ReachesWaiting mc C (k, w) := by
  induction h with
  | init h => exact ⟨∅, .init ⟨h, rfl⟩⟩
  | step _ h ih =>
      obtain ⟨w, hw⟩ := ih
      exact ⟨_, ReachesWaiting.step hw h.1 h.2⟩

lemma KeepsReceivers.create {T : Template} {c : ℕ} (h : Populated mc T c k) (img : Image)
    (priority : Word) :
    KeepsReceivers k (.create img priority) := by
  refine ⟨nofun, nofun, fun _ e rest hfree => ?_⟩
  have hmem : e ∈ k.envFreeList := hfree ▸ List.mem_cons_self
  rw [h.free, List.mem_range'_1] at hmem
  rw [h.unborn e hmem.1]
  rfl

lemma KeepsReceivers.trap (hsend : ∀ envid value srcva perm,
    tf.Calls (.ipcTrySend envid value srcva perm) →
      srcva = 0#32) (hwake : ∀ envid st, ¬ tf.Calls (.setEnvStatus envid st))
    (hfork : ¬ tf.Calls .exofork) : KeepsReceivers k (.trap tf) := by
  refine ⟨?_, ?_, fun hc => absurd hc.1 hfork⟩
  · intro tf' envid value srcva perm heq hcall ⟨c, e, hvain⟩
    cases heq
    exact hvain.src.1 (hsend envid value srcva perm hcall)
  · intro tf' envid heq hcall
    cases heq
    exact absurd hcall (hwake envid _)

/-- On the small machine, env 1 waits for a message, and env 0 sends it one. -/
theorem recving_flags_right_small : ∃ x x', ReachesWaiting (smallMachine false) KeepsReceivers x ∧
    ReachesWaiting (smallMachine false) KeepsReceivers x' ∧ (x.1.envs 1).envIpcRecving = 1#32 ∧
    (x'.1.envs 1).envIpcRecving = 0#32 ∧ (x'.1.envs 1).envIpcValue = 7#32 ∧
    RecvOk x ∧ RecvOk x' := by
  have hcalls : ∀ {call call' : Syscall}, call.frame.Calls call' → call' = call := fun hc =>
    hc.unique (Syscall.frame_calls _)
  obtain ⟨k₀, T, k, hk₀, hk, -, hcur, hpop⟩ := exists_started false (C := KeepsReceivers)
    (fun hpop _ => .create hpop _ _)
    (fun _ => .trap (fun _ _ _ _ hc => absurd hc (not_calls_tickFrame _))
      (fun _ _ => not_calls_tickFrame _) (not_calls_tickFrame _)) (show 1 < NASID by decide)
  obtain ⟨w, hw⟩ := (hk.reaches hk₀).exists_waiting
  -- env 1 waits
  obtain ⟨k', hstep, hrecv⟩ := hpop.recv hcur
  have hw' := hw.step (.trap (fun _ _ _ _ hc => by cases hcalls hc)
    (fun _ _ hc => by cases hcalls hc)
    fun hc => by cases hcalls hc) hstep
  -- env 0 sends it a message
  obtain ⟨q, hrun⟩ := hpop.run_send hrecv (Syscall.ipcTrySend 4097#32 7#32 0#32 0#32).frame
  have hstep' : Step k' (.trap (Syscall.ipcTrySend 4097#32 7#32 0#32 0#32).frame) _ :=
    step_call_ok (by simp [hrecv.cur]) (Syscall.frame_calls _) hrun
  have hw'' := hw'.step (.trap (fun _ _ _ _ hc => by cases hcalls hc; rfl)
    (fun _ _ hc => by cases hcalls hc)
    fun hc => by cases hcalls hc) hstep'
  refine ⟨_, _, hw', hw'', hrecv.recving, ?_, ?_, recving_flags_right hw', recving_flags_right hw''⟩
  · simp [Kernel.returning, Kernel.woken]
  · simp [Kernel.returning, Kernel.woken]

/-- **A send that fails clears the flag**: env 1 waits, nobody has sent it anything, and yet its
flag says that it does not wait. -/
theorem recving_flag_lost : ∃ x, ReachesWaiting (smallMachine false) (fun _ _ => True) x ∧
    (x.1.envs 1).envStatus ≠ .free ∧ 1 ∈ x.2 ∧ (x.1.envs 1).envIpcRecving = 0#32 ∧ ¬ RecvOk x := by
  obtain ⟨k₀, T, k, hk₀, hk, -, hcur, hpop⟩ := exists_started false
    (C := fun _ _ => True) (fun _ _ => trivial) (fun _ => trivial) (show 1 < NASID by decide)
  obtain ⟨w, hw⟩ := (hk.reaches hk₀).exists_waiting
  obtain ⟨k', hstep, hrecv⟩ := hpop.recv hcur
  have hw' := hw.step trivial hstep
  have hmem : 1 ∈ waiting k (.trap (Syscall.ipcRecv 0#32).frame) k' w := by
    refine ⟨fun hc => ?_, .inl ⟨hcur, _, Syscall.frame_calls _, .inl rfl⟩⟩
    exact absurd hc.1 (by rw [(hpop.born 1 (by decide)).1]; decide)
  -- env 0 sends a page that it does not have
  have hcall := Syscall.frame_calls (.ipcTrySend 4097#32 0#32 UTEMP 0#32)
  have hvain := (hpop.sentInVain hrecv).setKtf
    { (Syscall.ipcTrySend 4097#32 0#32 UTEMP 0#32).frame with epc := 0#32 + 4#32 }
  obtain ⟨x, k'', hrun, ⟨err, rfl⟩, hzero, hwoken⟩ := hvain.run 0#32 0#32
  have hstep' : Step k' (.trap (Syscall.ipcTrySend 4097#32 0#32 UTEMP 0#32).frame)
      (k''.returning (-err.toWord)) :=
    step_call_failed (by simp [hrecv.cur]) hcall hrun
  have hw'' := hw'.step trivial hstep'
  have hlive : ((k''.returning (-err.toWord)).envs 1).envStatus ≠ .free := by
    change (k''.envs 1).envStatus ≠ .free
    rw [hwoken]
    decide
  have hmem' : 1 ∈ waiting k' (.trap (Syscall.ipcTrySend 4097#32 0#32 UTEMP 0#32).frame)
      (k''.returning (-err.toWord)) (waiting k (.trap (Syscall.ipcRecv 0#32).frame) k' w) := by
    refine ⟨fun hc => ?_, .inr ⟨hmem, fun hsent => ?_⟩⟩
    · exact absurd hc.1 (by rw [hrecv.status]; decide)
    · have h10 : (k''.returning (-err.toWord)).ktf.regs 10 = -err.toWord := by
        simp [Kernel.returning, Trapframe.setReg]
      exact neg_toWord_ne_zero err (h10.symm.trans hsent.2)
  exact ⟨_, hw'', hlive, hmem', hzero, fun hok => (hok.recving_iff 1 hlive).mpr hmem' hzero⟩

end

end MosRv
