import MosRv.Receivers

/-!
# Pages that come with a message (`sys_ipc_recv`, `sys_ipc_try_send`)

A page is to change hands when both sides ask for it: the receiver named an address in
`sys_ipc_recv`, the sender one in `sys_ipc_try_send`.  `asked` keeps what every env said in its last
`sys_ipc_recv`, and `Kernel.PageTransfer` is what a send has to do then: it maps the page where the
receiver wants it, touches nothing else, and the permission word tells the receiver (and `serve`,
the file server's loop) whether there is a page.

The code looks at the sender's address only.  A page for a receiver that wants none is mapped at
address 0, and `PTE_V` is in the permission word of every message (`page_transfer_iff`).
-/

namespace MosRv

open Prog Reach

/-! ## What the receiver said -/

/-- `e` calls `sys_ipc_recv(dstva)`, and blocks. -/
def Event.Asks (k : Kernel) (e : ℕ) (dstva : Word) : Event → Prop
  | .trap tf => k.curenv = some e ∧ tf.Calls (.ipcRecv dstva) ∧ (Syscall.ipcRecv dstva).Waits
  | _ => False

/-- The argument of the last `sys_ipc_recv` of every env, since its creation. -/
def asked (k : Kernel) (ev : Event) (k' : Kernel) (g : Set (ℕ × Word)) : Set (ℕ × Word) :=
  {x | ¬ k.Created k' x.1 ∧ (ev.Asks k x.1 x.2 ∨ (x ∈ g ∧ ∀ a, ¬ ev.Asks k x.1 a))}

/-- The runs of the machine with that history. -/
def ReachesAsked (mc : Machine) (C : Kernel → Event → Prop) : Kernel × Set (ℕ × Word) → Prop :=
  Reachable (fun x => mc.Boots x.1 ∧ x.2 = ∅)
    (When (fun x ev => C x.1 ev) (Tracked asked Step))

section

variable {mc : Machine} {C : Kernel → Event → Prop} {k k' k₁ : Kernel} {ev : Event} {e c : ℕ}
  {tf : Trapframe} {call : Syscall} {r : Except Exit Word}

/-- What an event does to `env_ipc_dstva`, everywhere. -/
inductive DstvaChange (k : Kernel) (ev : Event) (k' : Kernel) : Prop
  | same (hno : ∀ e a, ¬ ev.Asks k e a)
      (h : ∀ e, (k'.envs e).envIpcDstva = (k.envs e).envIpcDstva)
  | asked {c : ℕ} {a : Word} (hasks : ev.Asks k c a)
      (h : ∀ e, (k'.envs e).envIpcDstva = if e = c then a else (k.envs e).envIpcDstva)

lemma not_asks (hcall : tf.Calls call) (hno : ¬ call.Waits) (e : ℕ) (a : Word) :
    ¬ (Event.trap tf).Asks k e a := by
  rintro ⟨-, hcall', hw⟩
  exact hno (hcall.unique hcall' ▸ hw)

/-- A change of an env that leaves the field alone leaves it alone everywhere. -/
lemma dstva_update {v : Env} (hv : v.envIpcDstva = (k.envs c).envIpcDstva) (e : ℕ) :
    (Function.update k.envs c v e).envIpcDstva = (k.envs e).envIpcDstva := by
  by_cases hec : e = c
  · subst hec
    rw [Function.update_self, hv]
  · rw [Function.update_of_ne hec]

lemma dstvaChange_syscall (hcall : tf.Calls call)
    (ha : Syscall.Acts (k.entering tf) call r k₁) (henvs : k'.envs = k₁.envs) :
    DstvaChange k (.trap tf) k' := by
  have hsame : ¬ call.Waits → (∀ e, (k₁.envs e).envIpcDstva = (k.envs e).envIpcDstva) →
      DstvaChange k (.trap tf) k' := fun hno h =>
    .same (not_asks hcall hno) fun e => henvs ▸ h e
  cases ha with
  | plain hplain hk =>
      obtain ⟨m, dev, rfl⟩ := hk
      exact hsame hplain.not_waits fun _ => rfl
  | failed hno hk =>
      obtain ⟨m, dev, rfl⟩ := hk
      exact hsame hno fun _ => rfl
  | yield hs => exact hsame id fun e => (hs.switched.envs e).envIpcDstva
  | destroy => exact hsame id (dstva_update (k := k.entering tf) rfl)
  | destroySelf _ _ _ hs =>
      refine hsame id fun e => (hs.switched.envs e).envIpcDstva.trans ?_
      refine dstva_update (k := k.entering tf) ?_ e
      rfl
  | setTlbModEntry => exact hsame id (dstva_update (k := k.entering tf) rfl)
  | notForked => exact hsame id (dstva_update (k := k.entering tf) rfl)
  | @forked c e₀ pp i rest prest =>
      refine hsame id fun e => ?_
      simp only [Kernel.forked, Kernel.allocated, Function.update_self, Function.update_idem]
      refine dstva_update (k := k.entering tf) ?_ e
      rfl
  | wake => exact hsame id (dstva_update (k := k.entering tf) rfl)
  | block => exact hsame id (dstva_update (k := k.entering tf) rfl)
  | sameStatus => exact hsame id fun _ => rfl
  | setTrapframeSelf _ _ _ hk =>
      obtain ⟨m, dev, rfl⟩ := hk
      exact hsame id fun _ => rfl
  | setTrapframe _ _ _ hk =>
      obtain ⟨m, dev, rfl⟩ := hk
      exact hsame id (dstva_update (k := k.entering tf) rfl)
  | sent _ _ _ _ hk =>
      obtain ⟨m, dev, rfl⟩ := hk
      exact hsame id (dstva_update (k := k.entering tf) rfl)
  | sentLate _ _ _ _ _ _ _ hk =>
      obtain ⟨m, dev, rfl⟩ := hk
      exact hsame id (dstva_update (k := k.entering tf) rfl)
  | @received dstva c q k₂ hwaits hcur hq hs =>
      refine .asked (c := c) (a := dstva) ⟨hcur, hcall, hwaits⟩ fun e => ?_
      rw [henvs, (hs.switched.envs e).envIpcDstva]
      by_cases hec : e = c <;> simp [Kernel.receiving, Kernel.entering, hec]

lemma not_asks_of_cause (hcause : tf.cause ≠ CAUSE_USER_ECALL) (e : ℕ) (a : Word) :
    ¬ (Event.trap tf).Asks k e a :=
  fun h => hcause h.2.1.1

lemma dstvaChange_event (ha : ev.Acts k k') : DstvaChange k ev k' := by
  cases ha with
  | create _ _ _ _ _ hk =>
      obtain ⟨m, dev, rfl⟩ := hk
      refine .same (fun _ _ => id) fun e => ?_
      simp only [Kernel.created, Kernel.newborn, Function.update_self, Function.update_idem]
      refine dstva_update ?_ e
      rfl
  | trap _ ht =>
      cases ht with
      | tick hcause hs =>
          exact .same (not_asks_of_cause fun h => absurd (h ▸ hcause) (by decide)) fun e =>
            (hs.switched.envs e).envIpcDstva
      | noCall _ hnone =>
          refine .same (fun e a h => ?_) fun _ => rfl
          exact absurd (hnone.symm.trans h.2.1.2) (by simp)
      | call hcall hs => exact dstvaChange_syscall hcall hs rfl
      | callFailed hcall hs => exact dstvaChange_syscall hcall hs rfl
      | callGone hcall hs => exact dstvaChange_syscall hcall hs rfl
      | fault hcause hk =>
          obtain ⟨m, dev, rfl⟩ := hk
          exact .same (not_asks_of_cause (by rcases hcause with h | h <;> rw [h] <;> decide))
            fun _ => rfl
      | queryVpt _ _ hcause _ _ hk =>
          obtain ⟨m, dev, rfl⟩ := hk
          exact .same (not_asks_of_cause (by rw [hcause]; decide)) fun _ => rfl
      | userMod hcause hk =>
          obtain ⟨m, dev, rfl⟩ := hk
          exact .same (not_asks_of_cause (by rw [hcause]; decide)) fun _ => rfl
  | store _ hk =>
      obtain ⟨m, dev, rfl⟩ := hk
      exact .same (fun _ _ => id) fun _ => rfl

/-- **`env_ipc_dstva` is what the env asked for.** -/
lemma ReachesAsked.dstva {x : Kernel × Set (ℕ × Word)} (h : ReachesAsked mc C x) :
    ∀ e a, (e, a) ∈ x.2 → (x.1.envs e).envIpcDstva = a := by
  refine Reachable.invariant
    (I := fun x => ∀ e a, (e, a) ∈ x.2 → (x.1.envs e).envIpcDstva = a) h ?_ ?_
  · rintro ⟨k, g⟩ ⟨-, rfl⟩ e a hmem
    exact hmem.elim
  · rintro ⟨k, g⟩ ev ⟨k', g'⟩ hinv ⟨-, hstep, hg⟩ e a hmem
    obtain ⟨-, hor⟩ : (e, a) ∈ asked k ev k' g := (show g' = asked k ev k' g from hg) ▸ hmem
    cases dstvaChange_event (show ev.Acts k k' from hstep.acts) with
    | same hno hsame =>
        obtain ⟨hold, -⟩ := hor.resolve_left (hno e a)
        exact (hsame e).trans (hinv e a hold)
    | @asked c b hasks hsame =>
        change (k'.envs e).envIpcDstva = a
        rw [hsame e]
        by_cases hec : e = c
        · subst hec
          rw [if_pos rfl]
          obtain hasks' | ⟨-, hno⟩ := hor
          · cases ev with
            | trap tf =>
                cases hasks.2.1.unique hasks'.2.1
                rfl
            | _ => exact hasks'.elim
          · exact absurd hasks (hno b)
        · rw [if_neg hec]
          obtain hasks' | ⟨hold, -⟩ := hor
          · cases ev with
            | trap tf => exact absurd (Option.some.inj (hasks'.1.symm.trans hasks.1)) hec
            | _ => exact hasks'.elim
          · exact hinv e a hold

lemma ReachesAsked.reaches {x : Kernel × Set (ℕ × Word)} (h : ReachesAsked mc C x) :
    Reaches mc C x.1 := by
  induction h with
  | init h => exact .init h.1
  | step _ h ih => exact ih.step ⟨h.1, h.2.1⟩

end

/-! ## What a send does -/

/-- The check of `serve` (`fs/serv.c`): requests must contain an argument page. -/
def rejects (perm : Word) : Bool := decide (perm &&& PTE_V = 0#32)

/-- The entry that a send of `c`'s page at `srcva` makes for `e` at `dstva`. -/
def Kernel.sentEntry (k : Kernel) (c e : ℕ) (srcva dstva perm : Word) : Option Word :=
  (k.pageAt c srcva).map fun pp =>
    insertedWord (k.pm.entryAt (k.envs e).envPgdir dstva) pp (perm ||| PTE_U)

/-- The send from `k` to `k'` has mapped the sender's page for `e`. -/
def Kernel.PageSent (k k' : Kernel) (c e : ℕ) (srcva dstva perm : Word) : Prop :=
  srcva ≠ 0#32 ∧ ∃ w, k.sentEntry c e srcva dstva perm = some w ∧
    k'.pm.entryAt (k'.envs e).envPgdir dstva = some w

/-- **What a send that returns 0 has to do**, to a receiver `e` that waits at `dstva`. -/
structure Kernel.PageTransfer (k k' : Kernel) (c e : ℕ) (srcva dstva perm : Word) : Prop where
  /-- The address space changes at the page of `dstva`, if both sides named an address. -/
  space : ∀ va < ULIM, k'.pm.entryAt (k'.envs e).envPgdir va =
    if srcva ≠ 0#32 ∧ dstva ≠ 0#32 ∧ VPN va = VPN dstva then k.sentEntry c e srcva dstva perm
    else k.pm.entryAt (k.envs e).envPgdir va
  /-- The permission word says whether there is a page … -/
  perm_iff : HasFlag (k'.envs e).envIpcPerm PTE_V ↔ k.PageSent k' c e srcva dstva perm
  /-- … and so does `serve`. -/
  rejects_iff : rejects (k'.envs e).envIpcPerm = true ↔ ¬ k.PageSent k' c e srcva dstva perm

section

variable {T : Template} {n : ℕ} {dirs : ℕ → Option ℕ} {m m' : Pmap} {k k' : Kernel}
  {c e d pp : ℕ} {va va' srcva dstva value perm : Word} {q : TailQueue.Queue ℕ}

lemma entryAt_of_VPN (h : VPN va = VPN va') : m.entryAt d va = m.entryAt d va' := by
  obtain ⟨hpdx, hptx⟩ := (VPN_eq_iff _ _).mp h
  rw [Pmap.entryAt, Pmap.entryAt, Pmap.walk, Pmap.walk, Pmap.pde, Pmap.pde, hpdx, hptx]

lemma hasFlag_sentPerm (perm : Word) : HasFlag (PTE_U ||| PTE_R ||| PTE_V ||| perm) PTE_V :=
  (hasFlag_or _ _ _).mpr (.inl ((hasFlag_or _ _ _).mpr (.inr hasFlag_PTE_V)))

lemma rejects_eq (perm : Word) : rejects perm = true ↔ ¬ HasFlag perm PTE_V := by
  rw [rejects, decide_eq_true_iff, HasFlag, not_not]

/-- **The page goes where it should, exactly where both sides named an address**, or where the page
is at address 0 of the receiver already. -/
lemma KInv.pageTransfer_iff (h : KInv T k) (he : (k.envs e).envStatus ≠ .free)
    (hdst : (k.envs e).envIpcDstva = dstva)
    (hk' : (srcva = 0#32 ∧ k' = k.woken c e value perm q) ∨
      (srcva ≠ 0#32 ∧ ∃ pp m, k.pageAt c srcva = some pp ∧
        InsertCase k.pm (k.envs e).envPgdir pp (k.envs e).envIpcDstva (perm ||| PTE_U) m ∧
        k' = { k.woken c e value perm q with pm := m })) :
    k.PageTransfer k' c e srcva dstva perm ↔ srcva ≠ 0#32 ∧ (dstva = 0#32 →
      k.pm.entryAt (k.envs e).envPgdir 0#32 = k.sentEntry c e srcva 0#32 perm) := by
  have hdir : (k'.envs e).envPgdir = (k.envs e).envPgdir := by
    obtain ⟨-, rfl⟩ | ⟨-, pp, m, -, -, rfl⟩ := hk'
    · exact (woken_fields k c e value perm q e).1
    · exact (woken_fields k c e value perm q e).1
  have hperm : (k'.envs e).envIpcPerm = PTE_U ||| PTE_R ||| PTE_V ||| perm := by
    obtain ⟨-, rfl⟩ | ⟨-, pp, m, -, -, rfl⟩ := hk'
    · simp [Kernel.woken]
    · simp [Kernel.woken]
  have hflag : HasFlag (k'.envs e).envIpcPerm PTE_V := hperm ▸ hasFlag_sentPerm perm
  obtain ⟨h0, -⟩ | ⟨hne, pp, m, hpp, hcase, rfl⟩ := hk'
  · exact iff_of_false (fun ht => (ht.perm_iff.mp hflag).1 h0) fun hc => hc.1 h0
  have hsent : k.sentEntry c e srcva dstva perm =
      some (insertedWord (k.pm.entryAt (k.envs e).envPgdir dstva) pp (perm ||| PTE_U)) := by
    rw [Kernel.sentEntry, hpp]
    rfl
  rw [hdst] at hcase
  have hspace : ∀ va < ULIM, m.entryAt (k.envs e).envPgdir va =
      if VPN va = VPN dstva then k.sentEntry c e srcva dstva perm
      else k.pm.entryAt (k.envs e).envPgdir va := by
    intro va hva
    rw [hsent]
    exact h.pages.entryAt_insert (dirs_of_ne_free he) (hdst ▸ h.dstva e) hcase hva
  have hmapped : k.PageSent { k.woken c e value perm q with pm := m } c e srcva dstva perm := by
    refine ⟨hne, _, hsent, ?_⟩
    rw [hdir]
    change m.entryAt _ _ = _
    rw [hspace dstva (lt_ULIM_of_lt_UTOP (hdst ▸ h.dstva e)), if_pos rfl, hsent]
  rw [and_iff_right hne]
  constructor
  · rintro ht rfl
    have h0 := ht.space 0#32 (by decide)
    rw [hdir, if_neg (by simp)] at h0
    change m.entryAt _ _ = _ at h0
    rw [← h0, hspace 0#32 (by decide), if_pos rfl]
  · intro hzero
    refine ⟨fun va hva => ?_, iff_of_true hflag hmapped, ?_⟩
    · rw [hdir]
      change m.entryAt _ _ = _
      rw [hspace va hva]
      by_cases hvpn : VPN va = VPN dstva
      · by_cases hd : dstva = 0#32
        · subst hd
          rw [if_pos hvpn, if_neg (by simp), ← hzero rfl, entryAt_of_VPN hvpn]
        · rw [if_pos hvpn, if_pos ⟨hne, hd, hvpn⟩]
      · rw [if_neg hvpn, if_neg fun hc => hvpn hc.2.2]
    · rw [rejects_eq]
      exact not_congr (iff_of_true hflag hmapped)

end

section

variable {mc : Machine} {T : Template} {x : Kernel × Set (ℕ × Word)} {k k' : Kernel} {c e : ℕ}
  {tf : Trapframe} {envid value srcva dstva perm : Word}

/-- The env that a send goes to. -/
lemma Kernel.Resolves.envOf (h : k.Resolves envid false e) : k.envOf envid = some e := by
  cases h with
  | self h0 hcur => rw [Kernel.envOf, if_pos h0, hcur]
  | other h0 => rw [Kernel.envOf, if_neg h0]

lemma pageTransfer_entering (tf : Trapframe) :
    (k.entering tf).PageTransfer k' c e srcva dstva perm ↔
    k.PageTransfer k' c e srcva dstva perm :=
  ⟨fun h => ⟨h.space, h.perm_iff, h.rejects_iff⟩, fun h => ⟨h.space, h.perm_iff, h.rejects_iff⟩⟩

/-- **A page changes hands as it should, exactly where both sides asked for it**: for every receiver
and every send to it that returns 0, in every run whose mapping calls are admissible. -/
theorem page_transfer_iff (h : ReachesAsked mc (fun k ev => ev.Admissible k) x)
    (hcur : x.1.curenv = some c) (htarget : x.1.Resolves envid false e)
    (hasked : (e, dstva) ∈ x.2)
    (hrun : sysIpcTrySend envid value srcva perm (x.1.entering tf) = .ok 0#32 k') :
    x.1.PageTransfer k' c e srcva dstva perm ↔ srcva ≠ 0#32 ∧ (dstva = 0#32 →
      x.1.pm.entryAt (x.1.envs e).envPgdir 0#32 = x.1.sentEntry c e srcva 0#32 perm) := by
  obtain ⟨T, -, -, -, hinv⟩ := h.reaches.kInv fun _ _ hc => hc
  have hk : KInv T (x.1.entering tf) := hinv.of_eq rfl rfl rfl rfl rfl rfl
  obtain ⟨-, c', e', q, hc', he', -, -, -, hcases⟩ :=
    (hk.wp_sysIpcTrySend_cases envid value srcva perm).of_ok hrun
  obtain rfl := Option.some.inj (hcur.symm.trans hc')
  obtain rfl := Option.some.inj ((htarget.setKtf _).envOf.symm.trans he')
  have hlive : (x.1.envs e).envStatus ≠ .free := h.reaches.envInv.live_of_resolves htarget
  rw [← pageTransfer_entering tf]
  have hdst := h.dstva e dstva hasked
  obtain hsame | ⟨hne, pp, m, hpp, -, hcase, rfl⟩ := hcases
  · exact hk.pageTransfer_iff hlive hdst (.inl hsame)
  · exact hk.pageTransfer_iff hlive hdst (.inr ⟨hne, pp, m, hpp, hcase, rfl⟩)

/-! ## Nothing sent, and a page reported -/

lemma Reaches.exists_asked {C : Kernel → Event → Prop} (h : Reaches mc C k) :
    ∃ g, ReachesAsked mc C (k, g) := by
  induction h with
  | init h => exact ⟨∅, .init ⟨h, rfl⟩⟩
  | step _ h ih =>
      obtain ⟨g, hg⟩ := ih
      exact ⟨asked _ _ _ g, Reachable.step hg ⟨h.1, h.2, rfl⟩⟩

/-- Env 1 waits for a message and wants no page; env 0 sends it one without a page. -/
lemma exists_sent : ∃ x k', ReachesAsked (smallMachine false) (fun k ev => ev.Admissible k) x ∧
    x.1.curenv = some 0 ∧ x.1.Resolves 4097#32 false 1 ∧ (1, 0#32) ∈ x.2 ∧
    sysIpcTrySend 4097#32 7#32 0#32 0#32
      (x.1.entering (Syscall.ipcTrySend 4097#32 7#32 0#32 0#32).frame) = .ok 0#32 k' ∧
    (k'.envs 1).envIpcPerm = PTE_U ||| PTE_R ||| PTE_V := by
  have htick : ∀ k, (Event.trap tickFrame).Admissible k := fun k call hcall =>
    absurd hcall (not_calls_tickFrame call)
  obtain ⟨k₀, T, k, hk₀, hk, -, hcur, hpop⟩ := exists_started false
    (C := fun k ev => ev.Admissible k) (fun _ _ => trivial) htick (show 1 < NASID by decide)
  obtain ⟨g, hg⟩ := (hk.reaches hk₀).exists_asked
  obtain ⟨k₁, hstep, hrecv⟩ := hpop.recv hcur
  have hadm : (Event.trap (Syscall.ipcRecv 0#32).frame).Admissible k := by
    intro call hcall pp perm hm
    obtain rfl := hcall.unique (Syscall.frame_calls _)
    cases hm
  have hg₁ : ReachesAsked (smallMachine false) (fun k ev => ev.Admissible k)
      (k₁, asked k (.trap (Syscall.ipcRecv 0#32).frame) k₁ g) :=
    Reachable.step hg ⟨hadm, hstep, rfl⟩
  have hmem : (1, 0#32) ∈ asked k (.trap (Syscall.ipcRecv 0#32).frame) k₁ g := by
    refine ⟨fun hc => ?_, .inl ⟨hcur, Syscall.frame_calls _, .inl rfl⟩⟩
    exact absurd hc.1 (by rw [(hpop.born 1 (by decide)).1]; decide)
  obtain ⟨q, hrun⟩ := hpop.run_send hrecv (Syscall.ipcTrySend 4097#32 7#32 0#32 0#32).frame
  exact ⟨_, _, hg₁, hrecv.cur, hpop.resolves hrecv, hmem, hrun, by simp [Kernel.woken]⟩

/-- **A message without a page has `PTE_V` in its permission word.** -/
theorem page_reported_not_sent : ∃ x k',
    ReachesAsked (smallMachine false) (fun k ev => ev.Admissible k) x ∧ x.1.curenv = some 0 ∧
    x.1.Resolves 4097#32 false 1 ∧ (1, 0#32) ∈ x.2 ∧
    sysIpcTrySend 4097#32 7#32 0#32 0#32
      (x.1.entering (Syscall.ipcTrySend 4097#32 7#32 0#32 0#32).frame) = .ok 0#32 k' ∧
    rejects (k'.envs 1).envIpcPerm = false ∧ ¬ x.1.PageTransfer k' 0 1 0#32 0#32 0#32 := by
  obtain ⟨x, k', hx, hcur, htarget, hasked, hrun, hperm⟩ := exists_sent
  refine ⟨x, k', hx, hcur, htarget, hasked, hrun, ?_, fun ht => ?_⟩
  · rw [hperm]
    decide
  · exact (ht.perm_iff.mp (by rw [hperm]; decide)).1 rfl

/-- The same message, by the equivalence. -/
theorem page_transfer_iff_small : ∃ x k',
    ReachesAsked (smallMachine false) (fun k ev => ev.Admissible k) x ∧
    (1, 0#32) ∈ x.2 ∧ (x.1.PageTransfer k' 0 1 0#32 0#32 0#32 ↔ 0#32 ≠ 0#32 ∧ (0#32 = 0#32 →
      x.1.pm.entryAt (x.1.envs 1).envPgdir 0#32 = x.1.sentEntry 0 1 0#32 0#32 0#32)) := by
  obtain ⟨x, k', hx, hcur, htarget, hasked, hrun, -⟩ := exists_sent
  exact ⟨x, k', hx, hasked, page_transfer_iff hx hcur htarget hasked hrun⟩

end

end MosRv
