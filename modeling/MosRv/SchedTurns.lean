import MosRv.Start
import MosRv.Sched
import MosRv.Lib.RoundRobin

/-!
# Turns

`schedule` is a weighted round robin on `env_sched_list`: an environment runs for as many timer
ticks in a row as its `env_pri` says.  The library's scheduler (`RoundRobin.State`) is what is left
of the kernel when only the list, `curenv` and the static `count` are looked at (`Kernel.turns`).

In every state in which the list is well formed and holds exactly the runnable environments, with
priorities of at least one, `schedule` runs a runnable environment; a yield runs another one if
there is one; and a run of timer ticks goes round the list (`schedule_weighted_round_robin`).
-/

namespace MosRv

open RoundRobin

/-- `env_sched_list` is the list `as`, which has exactly the runnable environments, and all of them
have a priority. -/
structure Kernel.Schedulable (k : Kernel) (as : List ℕ) : Prop where
  rep : TailQueue.Rep k.envSchedList as
  nonempty : as ≠ []
  runnable : ∀ e, e ∈ as ↔ e ≤ NENV ∧ (k.envs e).envStatus = .runnable
  pri : ∀ e ∈ as, 1 ≤ (k.envs e).envPri
  cur : ∀ c, k.curenv = some c → c ≤ NENV

/-- The number of ticks in a row that an environment gets. -/
def Kernel.weight (k : Kernel) (e : ℕ) : ℕ := (k.envs e).envPri.toNat

/-- The scheduler of the library. -/
def Kernel.turns (k : Kernel) (as : List ℕ) : State ℕ := ⟨as, k.curenv, k.schedCount.toNat⟩

section

variable {k k' : Kernel} {as : List ℕ} {α : Type} {yield : Bool} {tf : Trapframe}

/-- A list of environments, each at most once, is not longer than the array. -/
lemma Kernel.Schedulable.length_le (h : k.Schedulable as) : as.length ≤ NENV + 1 := by
  have hsub : as ⊆ List.range (NENV + 1) := fun e he =>
    List.mem_range.mpr (Nat.lt_succ_of_le ((h.runnable e).mp he).1)
  simpa using (h.rep.nodup.subperm hsub).length_le

lemma Kernel.Schedulable.mem_of_cur (h : k.Schedulable as) {c : ℕ} (hcur : k.curenv = some c) :
    c ∈ as ↔ (k.envs c).envStatus = .runnable := by
  rw [h.runnable]
  exact and_iff_right (h.cur c hcur)

/-- The current environment is moved to the tail. -/
lemma Kernel.Schedulable.requeued (h : k.Schedulable as) :
    k.CanRequeue ∧ ∃ q, k.requeued = some q ∧ TailQueue.Rep q (requeue as k.curenv) := by
  have hlen := h.length_le
  by_cases hcr : k.curRunnable = true
  · obtain ⟨c, hcur, hrun⟩ := Kernel.curRunnable_eq_true.mp hcr
    have hmem := (h.mem_of_cur hcur).mpr hrun
    obtain ⟨q₁, h₁, hrep₁⟩ := h.rep.remove hmem
    have hnot : c ∉ as.erase c := h.rep.nodup.not_mem_erase
    obtain ⟨q, h₂, hrep₂⟩ := hrep₁.insertTail hnot
    refine ⟨fun c' hc' _ => ?_, q, ?_, ?_⟩
    · obtain rfl := Option.some.inj (hcur.symm.trans hc')
      refine ⟨q₁, q, ?_, h₁, ?_, h₂⟩
      · rw [TailQueue.Op.proper, decide_eq_true_iff, h.rep.nodes_eq hlen]
        exact hmem
      · rw [TailQueue.Op.proper, decide_eq_true_iff,
          hrep₁.nodes_eq (le_trans (List.length_erase_le) hlen)]
        exact hnot
    · rw [Kernel.requeued_runnable hcur hrun, h₁, Option.bind_some, h₂]
    · rw [hcur, requeue, if_pos hmem]
      exact hrep₂
  · refine ⟨fun c hcur hrun => ?_, k.envSchedList, ?_, ?_⟩
    · exact absurd (Kernel.curRunnable_eq_true.mpr ⟨c, hcur, hrun⟩) hcr
    · exact Kernel.requeued_of_not_curRunnable (by simpa using hcr)
    · cases hcur : k.curenv with
      | none => exact h.rep
      | some c =>
          have hnot : c ∉ as := fun hmem =>
            hcr (Kernel.curRunnable_eq_true.mpr ⟨c, hcur, (h.mem_of_cur hcur).mp hmem⟩)
          rw [requeue, if_neg hnot]
          exact h.rep

/-- What running an environment leaves of the list. -/
lemma Kernel.Schedulable.running (h : k.Schedulable as) {q : TailQueue.Queue ℕ} {as' : List ℕ}
    {count : Word} {e : ℕ} (hrep : TailQueue.Rep q as') (hmem : ∀ a, a ∈ as' ↔ a ∈ as)
    (he : e ∈ as) :
    ({ k with envSchedList := q, schedCount := count }.running e).Schedulable as' := by
  have hsame := running_sameButContext { k with envSchedList := q, schedCount := count } e
  refine ⟨hrep, ?_, fun a => ?_, fun a ha => ?_, ?_⟩
  · exact List.ne_nil_of_mem ((hmem e).mpr he)
  · rw [hmem, h.runnable, (hsame a).envStatus]
  · rw [(hsame a).envPri]
    exact h.pri a ((hmem a).mp ha)
  · rintro c hc
    obtain rfl := Option.some.inj hc
    exact ((h.runnable e).mp he).1

lemma toNat_pred {w : Word} (h : w ≠ 0#32) : (w - 1#32).toNat = w.toNat - 1 := by
  have : w.toNat ≠ 0 := fun hc => h (BitVec.eq_of_toNat_eq hc)
  have := w.isLt
  rw [BitVec.toNat_sub, BitVec.toNat_ofNat]
  omega

/-- **`schedule` is a step of the round robin.** -/
lemma Kernel.Schedulable.wp_schedule (h : k.Schedulable as) :
    Prog.wp (schedule yield : KernelM α) k (fun _ _ => False)
      (fun x k' => x = .popTf ∧ ∃ as', k'.Schedulable as' ∧
        (k.turns as).Next k.weight yield (k'.turns as') ∧
        ∀ e, (k.envs e).SameButContext (k'.envs e)) fun _ => False := by
  obtain ⟨hcan, q, hq, hrep⟩ := h.requeued
  have hmem : ∀ a, a ∈ requeue as k.curenv ↔ a ∈ as := fun a => mem_requeue k.curenv
  have hhead : ∀ e, q.first = some e → e ∈ as := fun e he =>
    (hmem e).mp (List.mem_of_head? (hrep.first_eq ▸ he))
  refine (wp_schedule_of (fun hno => absurd hcan hno) (fun q' hq' hnone => ?_)
    fun q' e hq' he hno => ?_).mono (fun _ _ hf => hf) ?_ fun _ hp => hp
  · obtain rfl := Option.some.inj (hq.symm.trans hq')
    rw [hrep.first_eq, List.head?_eq_none_iff] at hnone
    obtain ⟨a, ha⟩ := List.exists_mem_of_ne_nil as h.nonempty
    have := (hmem a).mpr ha
    rw [hnone] at this
    exact absurd this List.not_mem_nil
  · obtain rfl := Option.some.inj (hq.symm.trans hq')
    exact hno ((h.runnable e).mp (hhead e he)).2
  · rintro x k' ⟨hx, hs⟩
    refine ⟨hx, ?_⟩
    cases hs with
    | @stay c hyield hcount hcur hrun =>
        have hc := (h.mem_of_cur hcur).mpr hrun
        refine ⟨as, h.running h.rep (fun _ => Iff.rfl) hc, ?_, fun e =>
          running_sameButContext _ _ _⟩
        have hne : (k.turns as).left ≠ 0 := fun hz => hcount (BitVec.eq_of_toNat_eq hz)
        have hnext : (k.turns as).Next k.weight yield _ := .stay hyield hne hcur hc
        convert hnext using 1
        change State.mk as (some c) (k.schedCount - 1#32).toNat = State.mk as k.curenv _
        rw [hcur, toNat_pred hcount]
        rfl
    | @pick q' e hpick hq' hfirst hrun =>
        obtain rfl := Option.some.inj (hq.symm.trans hq')
        have he := hhead e hfirst
        refine ⟨requeue as k.curenv, h.running hrep hmem he, ?_,
          fun e => running_sameButContext _ _ _⟩
        obtain ⟨rest, hrest⟩ : ∃ rest, requeue as k.curenv = e :: rest :=
          List.head?_eq_some_iff.mp (hrep.first_eq ▸ hfirst)
        have hover : yield = true ∨ (k.turns as).Over := by
          rcases hpick with hy | hz | hno
          · exact .inl hy
          · exact .inr (.inl (congrArg BitVec.toNat hz))
          · refine .inr (.inr fun c hcur hc => ?_)
            have := Kernel.curRunnable_eq_true.mpr ⟨c, hcur, (h.mem_of_cur hcur).mp hc⟩
            rw [hno] at this
            exact absurd this (by decide)
        have hnext : (k.turns as).Next k.weight yield _ := .pick hover hrest
        convert hnext using 1
        rw [Kernel.turns, hrest]
        have hpos := h.pri e he
        have hne : (k.envs e).envPri ≠ 0#32 := by
          rintro hz
          rw [hz] at hpos
          exact absurd hpos (by decide)
        exact congrArg (State.mk (e :: rest) (some e)) (toNat_pred hne)

end

/-! ## Timer ticks -/

section

variable {k k' : Kernel} {as : List ℕ} {tf : Trapframe} {s : ℕ → Kernel}

/-- A timer interrupt is a call of `schedule`. -/
lemma wp_tick {Q : Unit → Kernel → Prop} {E : Exit → Kernel → Prop} {P : Panic → Prop}
    (htick : tf.IsTick) :
    Prog.wp (trap tf) k Q E P ↔
      Prog.wp (schedule false : KernelM Unit) { k with ktf := tf } Q E P := by
  have h₁ : 0x80000000#32 ≤ tf.cause := by
    rw [htick]
    decide
  have h₂ : tf.cause &&& 0x7FFFFFFF#32 = IRQ_S_TIMER := by
    rw [htick]
    decide
  rw [trap, Prog.wp_bind, Prog.wp_modify, trapsDispatch, Prog.wp_bind, Prog.wp_get, if_pos h₁,
    interruptHandler, Prog.wp_bind, Prog.wp_get, if_pos h₂]

lemma Kernel.Schedulable.setKtf (h : k.Schedulable as) : { k with ktf := tf }.Schedulable as :=
  ⟨h.rep, h.nonempty, h.runnable, h.pri, h.cur⟩

/-- A tick can happen. -/
lemma Kernel.Schedulable.exists_tick (h : k.Schedulable as) (htick : tf.IsTick) :
    ∃ k', Step k (.trap tf) k' := by
  have hwp := (wp_tick (k := k) htick).mpr h.setKtf.wp_schedule
  obtain ⟨x, k', hrun, rfl, -⟩ := hwp.exists_exit
  exact ⟨k', .inr htick, .inr hrun⟩

/-- What a tick does. -/
lemma Kernel.Schedulable.tick (h : k.Schedulable as) (htick : tf.IsTick)
    (hstep : Step k (.trap tf) k') :
    ∃ as', k'.Schedulable as' ∧ (k.turns as).Next k.weight false (k'.turns as') ∧
      k'.weight = k.weight := by
  have hwp := (wp_tick (k := k) htick).mpr h.setKtf.wp_schedule
  obtain ⟨-, hok | hexit⟩ := hstep
  · exact (hwp.of_ok hok).elim
  · obtain ⟨-, as', h', hnext, hsame⟩ := hwp.of_exit hexit
    exact ⟨as', h', hnext, funext fun e => congrArg BitVec.toNat (hsame e).envPri⟩

/-- A run of ticks is a run of the round robin. -/
lemma Kernel.Schedulable.run (h : (s 0).Schedulable as)
    (hs : ∀ n, ∃ tf, tf.IsTick ∧ Step (s n) (.trap tf) (s (n + 1))) :
    ∃ l : ℕ → List ℕ, l 0 = as ∧ (∀ n, (s n).Schedulable (l n)) ∧
      Run (s 0).weight fun n => (s n).turns (l n) := by
  have hnext : ∀ n as, (s n).Schedulable as → ∃ as', (s (n + 1)).Schedulable as' ∧
      ((s n).turns as).Next (s n).weight false ((s (n + 1)).turns as') ∧
      (s (n + 1)).weight = (s n).weight := by
    intro n as h
    obtain ⟨tf, htick, hstep⟩ := hs n
    exact h.tick htick hstep
  choose f hf using hnext
  let l : (n : ℕ) → { as // (s n).Schedulable as } :=
    Nat.rec ⟨as, h⟩ fun n x => ⟨f n x.1 x.2, (hf n x.1 x.2).1⟩
  have hw : ∀ n, (s n).weight = (s 0).weight := by
    intro n
    induction n with
    | zero => rfl
    | succ n ih => rw [(hf n (l n).1 (l n).2).2.2, ih]
  refine ⟨fun n => (l n).1, rfl, fun n => (l n).2, fun n => ?_⟩
  rw [← hw n]
  exact (hf n (l n).1 (l n).2).2.1

end

/-- **Weighted round robin.**  In a state in which the list has exactly the runnable environments,
`schedule` runs one of them, and with `yield` not the current one unless it is the only one.  From a
tick at which `count` is 0 the timer ticks run the environments in the order of the list, the
current one last, each for `env_pri` ticks in a row, over and over. -/
theorem schedule_weighted_round_robin {k : Kernel} {as : List ℕ} (h : k.Schedulable as) :
    (∀ yield, ∃ k' e, (schedule yield : KernelM Unit) k = .exit .popTf k' ∧ k'.curenv = some e ∧
      e ≤ NENV ∧ (k.envs e).envStatus = .runnable ∧
      (yield = true → k.curenv = some e →
        ∀ e' ≤ NENV, (k.envs e').envStatus = .runnable → e' = e)) ∧
    (k.schedCount = 0#32 → ∀ s : ℕ → Kernel, s 0 = k →
      (∀ n, ∃ tf, tf.IsTick ∧ Step (s n) (.trap tf) (s (n + 1))) → ∀ n,
        (s (n + 1)).curenv = (turns k.weight (requeue as k.curenv))[
          n % ((requeue as k.curenv).map k.weight).sum]?) ∧
    ∀ s : ℕ → Kernel, s 0 = k → (∀ n, ∃ tf, tf.IsTick ∧ Step (s n) (.trap tf) (s (n + 1))) →
      ∀ n tf, tf.IsTick → ∃ k', Step (s n) (.trap tf) k' := by
  refine ⟨fun yield => ?_, fun hcount s hs hrun n => ?_, fun s hs hrun n tf htick => ?_⟩
  · obtain ⟨x, k', hk', rfl, as', h', hnext, -⟩ :=
      (h.wp_schedule : Prog.wp (schedule yield : KernelM Unit) k _ _ _).exists_exit
    obtain ⟨e, hcur, hmem⟩ := hnext.cur_mem
    have he := (h.runnable e).mp (hnext.mem.mp hmem)
    refine ⟨k', e, hk', hcur, he.1, he.2, ?_⟩
    rintro rfl hsame e' hle hrun
    have honly : as = [e] := hnext.cur_of_yield h.rep.nodup hsame hcur
    have hmem' := (h.runnable e').mpr ⟨hle, hrun⟩
    rw [honly] at hmem'
    exact List.mem_singleton.mp hmem'
  · subst hs
    obtain ⟨l, hl, -, hr⟩ := h.run hrun
    have hcur := hr.cur_eq (by rw [hl]; exact h.rep.nodup) (congrArg BitVec.toNat hcount)
      (fun a ha => ?_) n
    · rw [hl, length_turns] at hcur
      exact hcur
    · rw [hl] at ha
      exact h.pri a ha
  · subst hs
    obtain ⟨l, -, hl, -⟩ := h.run hrun
    exact (hl n).exists_tick htick

/-- Two environments, with two time slices and one. -/
def twoReady : Kernel :=
  let list := (smallMachine false).initial quietDevices
  { list with
    envs := fun e =>
      if e = 0 then { zeroEnv with envStatus := .runnable, envPri := 2#32 }
      else if e = 1 then { zeroEnv with envStatus := .runnable, envPri := 1#32 }
      else zeroEnv
    envSchedList := (list.envSchedList.init.insertHead 1).insertHead 0 }

lemma schedulable_twoReady : twoReady.Schedulable [0, 1] where
  rep := ((TailQueue.Rep.init _).insertHead (by decide)).insertHead (by decide)
  nonempty := by decide
  runnable e := by
    by_cases h0 : e = 0
    · simp [h0, twoReady]
    · by_cases h1 : e = 1
      · simp [h1, twoReady, NENV]
      · simp [h0, h1, twoReady, zeroEnv]
  pri := by decide
  cur := nofun

theorem schedule_weighted_round_robin_two :
    (∀ yield, ∃ k' e, (schedule yield : KernelM Unit) twoReady = .exit .popTf k' ∧
      k'.curenv = some e ∧ e ≤ NENV ∧ (twoReady.envs e).envStatus = .runnable ∧
      (yield = true → twoReady.curenv = some e →
        ∀ e' ≤ NENV, (twoReady.envs e').envStatus = .runnable → e' = e)) ∧
    (∀ s : ℕ → Kernel, s 0 = twoReady →
      (∀ n, ∃ tf, tf.IsTick ∧ Step (s n) (.trap tf) (s (n + 1))) → ∀ n,
        (s (n + 1)).curenv = [0, 0, 1][n % 3]?) := by
  obtain ⟨hone, hrun, -⟩ := schedule_weighted_round_robin schedulable_twoReady
  exact ⟨hone, fun s hs hr n => hrun rfl s hs hr n⟩

end MosRv
