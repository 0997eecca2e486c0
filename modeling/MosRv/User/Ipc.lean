import MosRv.Boot
import MosRv.Lib.Reach
import MosRv.Sched
import MosRv.TrapInv

/-!
# Sending and receiving values (`kern/syscall_all.c`, `user/lib/ipc.c`)

Any number of environments send values to each other with `ipc_send` and receive them with
`ipc_recv`, in any order of their steps.  Every system call is a step; so is each of the reads by
which `ipc_recv` gets the sender, the permission and the value out of its `struct Env` after it is
resumed.

`recv` and `deliver` are what `sys_ipc_recv` and `sys_ipc_try_send` do to the `struct Env`s;
`wp_sysIpcRecv_recv` and `KInv.wp_sysIpcTrySend_deliver` connect them to the system calls.  The
order in which the scheduler runs the environments does not matter: any environment that is
runnable may take the next step, and yields and timer ticks change nothing.

`sent e` records the sends to `e` that returned 0, `got e` the calls of `ipc_recv` of `e` that
returned, each with the id of the sender and the value.
-/

namespace MosRv

open Reach

/-! ## The system calls -/

/-- What `sys_ipc_recv` does to the `struct Env`s. -/
def Ipc.recv (envs : ℕ → Env) (c : ℕ) (dstva : Word) : ℕ → Env :=
  Function.update envs c { envs c with
    envIpcRecving := 1#32, envIpcDstva := dstva, envStatus := .notRunnable }

/-- What a `sys_ipc_try_send` from `c` to a receiving `e` does to the `struct Env`s. -/
def Ipc.deliver (envs : ℕ → Env) (c e : ℕ) (value perm : Word) : ℕ → Env :=
  Function.update envs e { envs e with
    envIpcValue := value, envIpcFrom := (envs c).envId
    envIpcPerm := PTE_U ||| PTE_R ||| PTE_V ||| perm, envIpcRecving := 0#32
    envStatus := .runnable }

/-- A send of a value without a page goes to a receiving environment and changes that environment
only, as `deliver` says, or it changes nothing. -/
lemma KInv.wp_sysIpcTrySend_deliver {T : Template} {k : Kernel} (h : KInv T k)
    (envid value perm : Word) :
    Prog.wp (sysIpcTrySend envid value 0#32 perm) k
      (fun r k' => r = 0#32 ∧ ∃ c e, k.curenv = some c ∧ k.envOf envid = some e ∧
        (k.envs e).envIpcRecving ≠ 0#32 ∧ k'.envs = Ipc.deliver k.envs c e value perm)
      (fun _ k' => k' = k) (fun p => p = .nullCurenv ∨ p = .nullLink ∨ p = .listMisuse) := by
  refine (h.wp_sysIpcTrySend_cases envid value 0#32 perm).mono ?_ ?_ fun _ hp => hp
  · rintro r k' ⟨hr, c, e, q, hc, hid, -, hrecv, -, ⟨-, rfl⟩ | ⟨hne, -⟩⟩
    · exact ⟨hr, c, e, hc, hid, hrecv, rfl⟩
    · exact absurd rfl hne
  · rintro x k' ⟨-, hk | ⟨c, e, q, -, -, -, -, hne, -⟩⟩
    · exact hk
    · exact absurd rfl hne

/-- `sys_ipc_recv` changes the calling environment as `recv` says and gives up the processor; or it
refuses the address and changes nothing. -/
lemma wp_sysIpcRecv_recv {k : Kernel} (dstva : Word) :
    Prog.wp (sysIpcRecv dstva) k (fun _ _ => False)
      (fun x k' => (x = .code .inval ∧ k' = k) ∨ (x = .popTf ∧ ∃ c, k.curenv = some c ∧
        ∀ e, (Ipc.recv k.envs c dstva e).SameButContext (k'.envs e))) fun _ => True := by
  rw [sysIpcRecv, Prog.wp_ite, Prog.wp_exit]
  refine ⟨fun _ => .inl ⟨rfl, rfl⟩, fun _ => ?_⟩
  rw [Prog.wp_bind, wp_getCurenv]
  refine ⟨fun c hc => ?_, fun _ => trivial⟩
  rw [Prog.wp_bind, wp_modifyEnv, Prog.wp_bind]
  refine wp_onSchedList trivial trivial fun q _ => ?_
  rw [Prog.wp_bind, Prog.wp_modify]
  refine (wp_schedule_envs rfl true).mono (fun _ _ hf => hf) ?_ fun _ _ => trivial
  rintro x k' ⟨hx, hsame⟩
  exact .inr ⟨hx, c, hc, hsame⟩

namespace Ipc

/-! ## Environments that send and receive -/

/-- Where an environment is. -/
inductive Pc
  /-- In its own code. -/
  | idle
  /-- In `ipc_send`, before `syscall_ipc_try_send`. -/
  | send (e : ℕ) (value perm : Word)
  /-- In `ipc_send`, before `syscall_yield`. -/
  | yield (e : ℕ) (value perm : Word)
  /-- In `ipc_recv`, inside `syscall_ipc_recv`. -/
  | blocked
  /-- In `ipc_recv`, with `*whom` read. -/
  | readFrom (whom : Word)
  /-- In `ipc_recv`, with `*whom` and `*perm` read. -/
  | readPerm (whom perm : Word)

structure State where
  envs : ℕ → Env
  pc : ℕ → Pc
  sent : ℕ → List (Word × Word)
  got : ℕ → List (Word × Word)

def State.setPc (s : State) (c : ℕ) (pc : Pc) : State := { s with pc := Function.update s.pc c pc }

/-- What happens next. -/
inductive Act
  /-- A call of `ipc_recv`, which enters `sys_ipc_recv`. -/
  | recv (c : ℕ) (dstva : Word)
  /-- A call of `ipc_send`. -/
  | send (c e : ℕ) (value perm : Word)
  /-- A call of `syscall_ipc_try_send`, whose caller does not try again. -/
  | trySend (c e : ℕ) (value perm : Word)
  /-- The environment goes on. -/
  | run (c : ℕ)
  /-- A timer tick, or a `syscall_yield` outside `ipc_send`. -/
  | tick

/-- A send from `c` to `e` that returns 0. -/
def State.deliver (s : State) (c e : ℕ) (value perm : Word) : State :=
  { s with
    envs := Ipc.deliver s.envs c e value perm
    sent := Function.update s.sent e (s.sent e ++ [((s.envs c).envId, value)]) }

/-- `c` enters `sys_ipc_recv`. -/
def State.receive (s : State) (c : ℕ) (dstva : Word) : State :=
  { s with
    envs := Ipc.recv s.envs c dstva
    pc := Function.update s.pc c .blocked }

/-- The `ipc_recv` of `c` reads the value and returns. -/
def State.complete (s : State) (c : ℕ) (whom : Word) : State :=
  { s with
    pc := Function.update s.pc c .idle
    got := Function.update s.got c (s.got c ++ [(whom, (s.envs c).envIpcValue)]) }

/-- The steps.  An environment takes a step only while it is runnable. -/
inductive Step (s : State) : Act → State → Prop
  | recv {c : ℕ} {dstva : Word} (hrun : (s.envs c).envStatus = .runnable) (hpc : s.pc c = .idle)
      (hva : ¬ (dstva ≠ 0#32 ∧ isIllegalVa dstva)) :
      Step s (.recv c dstva) (s.receive c dstva)
  | send {c e : ℕ} {value perm : Word} (hrun : (s.envs c).envStatus = .runnable)
      (hpc : s.pc c = .idle) : Step s (.send c e value perm) (s.setPc c (.send e value perm))
  | trySend {c e : ℕ} {value perm : Word} (hrun : (s.envs c).envStatus = .runnable)
      (hpc : s.pc c = .idle) (hrecv : (s.envs e).envIpcRecving ≠ 0#32) :
      Step s (.trySend c e value perm) (s.deliver c e value perm)
  | tryFail {c e : ℕ} {value perm : Word} (hrun : (s.envs c).envStatus = .runnable)
      (hpc : s.pc c = .idle) (hrecv : (s.envs e).envIpcRecving = 0#32) :
      Step s (.trySend c e value perm) s
  | sent {c e : ℕ} {value perm : Word} (hrun : (s.envs c).envStatus = .runnable)
      (hpc : s.pc c = .send e value perm) (hrecv : (s.envs e).envIpcRecving ≠ 0#32) :
      Step s (.run c) ((s.deliver c e value perm).setPc c .idle)
  | notRecv {c e : ℕ} {value perm : Word} (hrun : (s.envs c).envStatus = .runnable)
      (hpc : s.pc c = .send e value perm) (hrecv : (s.envs e).envIpcRecving = 0#32) :
      Step s (.run c) (s.setPc c (.yield e value perm))
  | yield {c e : ℕ} {value perm : Word} (hrun : (s.envs c).envStatus = .runnable)
      (hpc : s.pc c = .yield e value perm) : Step s (.run c) (s.setPc c (.send e value perm))
  | readFrom {c : ℕ} (hrun : (s.envs c).envStatus = .runnable) (hpc : s.pc c = .blocked) :
      Step s (.run c) (s.setPc c (.readFrom (s.envs c).envIpcFrom))
  | readPerm {c : ℕ} {whom : Word} (hrun : (s.envs c).envStatus = .runnable)
      (hpc : s.pc c = .readFrom whom) :
      Step s (.run c) (s.setPc c (.readPerm whom (s.envs c).envIpcPerm))
  | readValue {c : ℕ} {whom perm : Word} (hrun : (s.envs c).envStatus = .runnable)
      (hpc : s.pc c = .readPerm whom perm) : Step s (.run c) (s.complete c whom)
  | tick : Step s .tick s

/-- Nobody is receiving, and nothing has been sent. -/
structure Initial (s : State) : Prop where
  pc : ∀ e, s.pc e = .idle
  recving : ∀ e, (s.envs e).envIpcRecving = 0#32
  sent : ∀ e, s.sent e = []
  got : ∀ e, s.got e = []

def Reaches : State → Prop := Reachable Initial Step

/-! ## Exactly once -/

/-- The message that is on its way to an environment: what its `struct Env` holds. -/
def State.message (s : State) (e : ℕ) : Word × Word :=
  ((s.envs e).envIpcFrom, (s.envs e).envIpcValue)

/-- What is known of an environment, by where it is. -/
def Place (s : State) (e : ℕ) : Pc → Prop
  | .idle | .send _ _ _ | .yield _ _ _ =>
      (s.envs e).envIpcRecving = 0#32 ∧ s.sent e = s.got e
  | .blocked =>
      (s.envs e).envIpcRecving ≠ 0#32 ∧ (s.envs e).envStatus = .notRunnable ∧ s.sent e = s.got e ∨
        (s.envs e).envIpcRecving = 0#32 ∧ s.sent e = s.got e ++ [s.message e]
  | .readFrom whom | .readPerm whom _ =>
      (s.envs e).envIpcRecving = 0#32 ∧ s.sent e = s.got e ++ [s.message e] ∧
        whom = (s.envs e).envIpcFrom

/-- The invariant. -/
def Inv (s : State) : Prop := ∀ e, Place s e (s.pc e)

section Steps

variable {s s' : State} {c e : ℕ}

/-- What is known of an environment is a matter of its own `struct Env` and records. -/
lemma place_congr (henv : s'.envs e = s.envs e) (hsent : s'.sent e = s.sent e)
    (hgot : s'.got e = s.got e) (pc : Pc) : Place s' e pc ↔ Place s e pc := by
  cases pc <;> simp only [Place, State.message, henv, hsent, hgot]

/-- A step that changes one environment. -/
lemma Inv.update (h : Inv s) (hpc : ∀ z, z ≠ c → s'.pc z = s.pc z)
    (henv : ∀ z, z ≠ c → s'.envs z = s.envs z) (hsent : ∀ z, z ≠ c → s'.sent z = s.sent z)
    (hgot : ∀ z, z ≠ c → s'.got z = s.got z) (hc : Place s' c (s'.pc c)) : Inv s' := by
  intro z
  by_cases hz : z = c
  · exact hz ▸ hc
  · rw [hpc z hz, place_congr (henv z hz) (hsent z hz) (hgot z hz)]
    exact h z

lemma Inv.setPc (h : Inv s) {pc : Pc} (hc : Place s c pc) : Inv (s.setPc c pc) := by
  refine h.update (c := c) (fun z hz => ?_) (fun _ _ => rfl) (fun _ _ => rfl) (fun _ _ => rfl) ?_
  · simp [State.setPc, hz]
  · have hpc : (s.setPc c pc).pc c = pc := Function.update_self ..
    rw [hpc]
    exact (place_congr rfl rfl rfl pc).mpr hc

/-- Who is receiving is blocked in `sys_ipc_recv`, and nothing is on its way to it. -/
lemma Inv.receiving (h : Inv s) (hrecv : (s.envs e).envIpcRecving ≠ 0#32) :
    s.pc e = .blocked ∧ (s.envs e).envStatus = .notRunnable ∧ s.sent e = s.got e := by
  have he := h e
  cases hpc : s.pc e with
  | blocked =>
      rw [hpc] at he
      rcases he with he | he
      · exact ⟨rfl, he.2.1, he.2.2⟩
      · exact absurd he.1 hrecv
  | idle | send e' v p | yield e' v p | readFrom w | readPerm w p =>
      rw [hpc] at he
      exact absurd he.1 hrecv

lemma Inv.deliver (h : Inv s) {value perm : Word} (hrecv : (s.envs e).envIpcRecving ≠ 0#32) :
    Inv (s.deliver c e value perm) := by
  obtain ⟨hpc, -, hsent⟩ := h.receiving hrecv
  refine h.update (c := e) (fun _ _ => rfl) (fun z hz => ?_) (fun z hz => ?_) (fun _ _ => rfl) ?_
  · exact Function.update_of_ne hz _ _
  · exact Function.update_of_ne hz _ _
  · change Place _ e (s.pc e)
    rw [hpc]
    right
    simp [State.deliver, Ipc.deliver, State.message, hsent]

lemma Inv.step {a : Act} (h : Inv s) (hs : Step s a s') : Inv s' := by
  cases hs with
  | @recv c dstva hrun hpc hva =>
      have hc := h c
      rw [hpc] at hc
      refine h.update (c := c) (fun z hz => ?_) (fun z hz => ?_) (fun _ _ => rfl)
        (fun _ _ => rfl) ?_
      · exact Function.update_of_ne hz _ _
      · exact Function.update_of_ne hz _ _
      · have hpc' : (s.receive c dstva).pc c = .blocked := Function.update_self ..
        rw [hpc']
        left
        exact ⟨by simp [State.receive, Ipc.recv], by simp [State.receive, Ipc.recv], hc.2⟩
  | @send c e value perm hrun hpc =>
      have hc := h c
      rw [hpc] at hc
      exact h.setPc hc
  | trySend hrun hpc hrecv => exact h.deliver hrecv
  | tryFail hrun hpc hrecv => exact h
  | tick => exact h
  | @sent c e value perm hrun hpc hrecv =>
      have hce : c ≠ e := by
        rintro rfl
        rw [(h.receiving hrecv).2.1] at hrun
        cases hrun
      have hc := h c
      rw [hpc] at hc
      have hsame : Place (s.deliver c e value perm) c .idle ↔ Place s c .idle := by
        apply place_congr
        · exact Function.update_of_ne hce _ _
        · exact Function.update_of_ne hce _ _
        · rfl
      exact (h.deliver hrecv).setPc (hsame.mpr hc)
  | @notRecv c e value perm hrun hpc hrecv =>
      have hc := h c
      rw [hpc] at hc
      exact h.setPc hc
  | @yield c e value perm hrun hpc =>
      have hc := h c
      rw [hpc] at hc
      exact h.setPc hc
  | @readFrom c hrun hpc =>
      have hc := h c
      rw [hpc] at hc
      refine h.setPc ?_
      rcases hc with ⟨-, hstatus, -⟩ | ⟨hrecv, hsent⟩
      · rw [hstatus] at hrun
        cases hrun
      · exact ⟨hrecv, hsent, rfl⟩
  | @readPerm c whom hrun hpc =>
      have hc := h c
      rw [hpc] at hc
      exact h.setPc hc
  | @readValue c whom perm hrun hpc =>
      have hc := h c
      rw [hpc] at hc
      obtain ⟨hrecv, hsent, hwhom⟩ := hc
      refine h.update (c := c) (fun z hz => ?_) (fun _ _ => rfl) (fun _ _ => rfl)
        (fun z hz => ?_) ?_
      · exact Function.update_of_ne hz _ _
      · exact Function.update_of_ne hz _ _
      · have hpc' : (s.complete c whom).pc c = .idle := Function.update_self ..
        rw [hpc']
        refine ⟨hrecv, ?_⟩
        simp [State.complete, hsent, State.message, hwhom]

lemma eq_of_update_ne {β : Type} {f : ℕ → β} {x : ℕ} {v : β}
    (hne : Function.update f x v e ≠ f e) : e = x := by
  by_contra hx
  exact hne (Function.update_of_ne hx _ _)

/-- A send succeeds only to a receiving environment. -/
lemma Step.receiving_of_sent {a : Act} (hs : Step s a s') (hne : s'.sent e ≠ s.sent e) :
    (s.envs e).envIpcRecving ≠ 0#32 := by
  cases hs with
  | trySend hrun hpc hrecv => exact eq_of_update_ne hne ▸ hrecv
  | sent hrun hpc hrecv => exact eq_of_update_ne hne ▸ hrecv
  | _ => exact absurd rfl hne

lemma deliver_recving {x : ℕ} {value perm : Word}
    (h : ((s.deliver c x value perm).envs e).envIpcRecving ≠ 0#32) :
    (s.envs e).envIpcRecving ≠ 0#32 := by
  by_cases hx : e = x
  · subst hx
    simp [State.deliver, Ipc.deliver] at h
  · simpa [State.deliver, Ipc.deliver, hx] using h

/-- Only `sys_ipc_recv` makes an environment receiving. -/
lemma Step.recv_of_receiving {a : Act} (hs : Step s a s')
    (h : (s'.envs e).envIpcRecving ≠ 0#32) :
    (s.envs e).envIpcRecving ≠ 0#32 ∨ ∃ dstva, a = .recv e dstva := by
  cases hs with
  | @recv c dstva hrun hpc hva =>
      by_cases hc : e = c
      · exact .inr ⟨dstva, hc ▸ rfl⟩
      · left
        simpa [State.receive, Ipc.recv, hc] using h
  | trySend hrun hpc hrecv => exact .inl (deliver_recving h)
  | sent hrun hpc hrecv => exact .inl (deliver_recving h)
  | _ => exact .inl h

/-- A call of `ipc_recv` that returns gets the one message that was on its way. -/
lemma Step.got_of_inv {a : Act} (hs : Step s a s') (h : Inv s) (hne : s'.got e ≠ s.got e) :
    ∃ m, s'.got e = s.got e ++ [m] ∧ s.sent e = s'.got e := by
  cases hs with
  | @readValue c whom perm hrun hpc =>
      have hc : e = c := eq_of_update_ne hne
      subst hc
      have he := h e
      rw [hpc] at he
      obtain ⟨-, hsent, rfl⟩ := he
      have hgot : (s.complete e (s.envs e).envIpcFrom).got e = s.got e ++ [s.message e] :=
        Function.update_self ..
      exact ⟨_, hgot, hsent.trans hgot.symm⟩
  | _ => exact absurd rfl hne

/-- At most one message is on its way. -/
lemma Inv.pending (h : Inv s) (e : ℕ) :
    ∃ pending : List (Word × Word), s.sent e = s.got e ++ pending ∧ pending.length ≤ 1 ∧
      (pending ≠ [] → pending = [s.message e] ∧ (s.envs e).envIpcRecving = 0#32) := by
  have hnone : s.sent e = s.got e → ∃ pending : List (Word × Word),
      s.sent e = s.got e ++ pending ∧ pending.length ≤ 1 ∧
        (pending ≠ [] → pending = [s.message e] ∧ (s.envs e).envIpcRecving = 0#32) :=
    fun hsent => ⟨[], by rw [hsent, List.append_nil], by simp, fun hne => absurd rfl hne⟩
  have he := h e
  cases hpc : s.pc e with
  | blocked =>
      rw [hpc] at he
      rcases he with ⟨-, -, hsent⟩ | ⟨hrecv, hsent⟩
      · exact hnone hsent
      · exact ⟨[s.message e], hsent, le_rfl, fun _ => ⟨rfl, hrecv⟩⟩
  | readFrom w | readPerm w p =>
      rw [hpc] at he
      exact ⟨[s.message e], he.2.1, le_rfl, fun _ => ⟨rfl, he.1⟩⟩
  | idle | send e' v p | yield e' v p =>
      rw [hpc] at he
      exact hnone he.2

end Steps

lemma Reaches.inv {s : State} (h : Reaches s) : Inv s := by
  refine Reachable.invariant h ?_ ?_
  · intro s hs e
    rw [hs.pc e]
    exact ⟨hs.recving e, by rw [hs.sent, hs.got]⟩
  · exact fun s a s' hs hstep => hs.step hstep

/-- **Every value is delivered exactly once.**  In every state, the sends to an environment that
returned 0 are, in order and with sender and value, its calls of `ipc_recv` that have returned and
at most one that is about to; and a send succeeds only to an environment that is blocked in
`sys_ipc_recv`, with nothing on its way. -/
theorem ipc_exactly_once (s : State) (h : Reaches s) (e : ℕ) :
    (∃ pending : List (Word × Word), s.sent e = s.got e ++ pending ∧ pending.length ≤ 1 ∧
      (pending ≠ [] → pending = [s.message e] ∧ (s.envs e).envIpcRecving = 0#32)) ∧
    ∀ a s', Step s a s' →
      (s'.sent e ≠ s.sent e → s.pc e = .blocked ∧ (s.envs e).envIpcRecving ≠ 0#32 ∧
        s.sent e = s.got e) ∧
      ((s'.envs e).envIpcRecving ≠ 0#32 → (s.envs e).envIpcRecving ≠ 0#32 ∨
        ∃ dstva, a = .recv e dstva) ∧
      (s'.got e ≠ s.got e → ∃ m, s'.got e = s.got e ++ [m] ∧ s.sent e = s'.got e) := by
  refine ⟨h.inv.pending e, fun a s' hs => ⟨fun hne => ?_, hs.recv_of_receiving,
    hs.got_of_inv h.inv⟩⟩
  have hrecv := hs.receiving_of_sent hne
  obtain ⟨hpc, -, hsent⟩ := h.inv.receiving hrecv
  exact ⟨hpc, hrecv, hsent⟩

/-- All environments are running their own code. -/
def start : State where
  envs e := { zeroEnv with envId := BitVec.ofNat 32 (1024 + e), envStatus := .runnable }
  pc _ := .idle
  sent _ := []
  got _ := []

lemma initial_start : Initial start where
  pc _ := rfl
  recving _ := rfl
  sent _ := rfl
  got _ := rfl

/-- Environment 0 sends 7 to environment 1, after trying once too early. -/
theorem ipc_exactly_once_early_send : ∃ s, Reaches s ∧ s.got 1 = [(1024#32, 7#32)] ∧
    ∃ pending : List (Word × Word), s.sent 1 = s.got 1 ++ pending ∧ pending.length ≤ 1 ∧
      (pending ≠ [] → pending = [s.message 1] ∧ (s.envs 1).envIpcRecving = 0#32) := by
  have h : Reaches start := .init initial_start
  have h := h.step (@Step.send _ 0 1 7#32 0#32 rfl rfl)
  have h := h.step (Step.notRecv (c := 0) rfl rfl rfl)
  have h := h.step (@Step.recv _ 1 0#32 rfl rfl (by simp))
  have h := h.step (Step.yield (c := 0) rfl rfl)
  have h := h.step (Step.sent (c := 0) rfl rfl (by decide))
  have h := h.step (Step.readFrom (c := 1) rfl rfl)
  have h := h.step (Step.readPerm (c := 1) rfl rfl)
  have h := h.step (Step.readValue (c := 1) rfl rfl)
  exact ⟨_, h, rfl, (ipc_exactly_once _ h 1).1⟩

end Ipc

end MosRv
