import MosRv.Acts
import MosRv.PageRuns

/-!
# Environments over whole runs

`EnvInv` is what holds of the environments in every state of every run, whatever happens to the
pages: `env_free_list` has no environment twice and only free ones, `curenv` is not free, and the id
of an environment ends with the number of its slot.  It is proved from `Step.acts` alone, so that
the results that rest on it are about all runs.
-/

namespace MosRv

open Prog Reach

/-- **The invariant of the environments.** -/
structure EnvInv (k : Kernel) : Prop where
  free_nodup : k.envFreeList.Nodup
  free_free : ∀ e ∈ k.envFreeList, (k.envs e).envStatus = .free
  cur_live : ∀ c, k.curenv = some c → (k.envs c).envStatus ≠ .free
  free_le : ∀ e ∈ k.envFreeList, e ≤ NENV
  live_id : ∀ e, (k.envs e).envStatus ≠ .free → e ≤ NENV ∧ (k.envs e).envId.toNat % 2048 = e

lemma nextId_mod (k : Kernel) {e : ℕ} (he : e ≤ NENV) : (k.nextId e).toNat % 2048 = e := by
  have hNENV : NENV = 1024 := rfl
  have h : ∀ w : Word, ((w <<< 11) ||| BitVec.ofNat 32 e).toNat % 2048 = e := by
    intro w
    have hsmall : e < 2 ^ 11 := by omega
    rw [BitVec.toNat_or, BitVec.toNat_shiftLeft, BitVec.toNat_ofNat, show 2048 = 2 ^ 11 from rfl,
      Nat.or_mod_two_pow, Nat.mod_mod_of_dvd _ (pow_dvd_pow 2 (by decide)),
      Nat.mod_mod_of_dvd _ (pow_dvd_pow 2 (by decide)), Nat.shiftLeft_eq, Nat.mul_mod_left,
      Nat.mod_eq_of_lt hsmall, Nat.zero_or]
  exact h _

namespace EnvInv

variable {k k' : Kernel} {e : ℕ}

/-- The free environments are the same, and the ids of the others. -/
lemma congr (h : EnvInv k) (hl : k'.envFreeList = k.envFreeList)
    (hs : ∀ e, (k'.envs e).envStatus = (k.envs e).envStatus)
    (hid : ∀ e, (k.envs e).envStatus ≠ .free → (k'.envs e).envId = (k.envs e).envId)
    (hc : k'.curenv = k.curenv) : EnvInv k' := by
  refine ⟨hl ▸ h.free_nodup, fun e he => ?_, fun c hcur => ?_, hl ▸ h.free_le, fun e he => ?_⟩
  · rw [hs]
    exact h.free_free e (hl ▸ he)
  · rw [hs]
    exact h.cur_live c (hc ▸ hcur)
  · rw [hs] at he
    rw [hid e he]
    exact h.live_id e he

lemma like (h : EnvInv k) (hk : k.Like k') : EnvInv k' := by
  obtain ⟨m, dev, rfl⟩ := hk
  exact h.congr rfl (fun _ => rfl) (fun _ _ => rfl) rfl

lemma setKtf (h : EnvInv k) (tf : Trapframe) : EnvInv { k with ktf := tf } :=
  h.congr rfl (fun _ => rfl) (fun _ _ => rfl) rfl

lemma live_of_resolves (h : EnvInv k) {envid : Word} {checkperm : Bool}
    (he : k.Resolves envid checkperm e) : (k.envs e).envStatus ≠ .free := by
  cases he with
  | self _ hcur => exact h.cur_live _ hcur
  | other _ hlive => exact hlive

/-- An environment that `envid2env` lets another one at is that one's child. -/
lemma parent_of_resolves (h : EnvInv k) {envid : Word} (he : k.Resolves envid true e)
    (hcur : k.curenv ≠ some e) :
    ∃ c, k.curenv = some c ∧ c ≠ e ∧ (k.envs e).envParentId = (k.envs c).envId := by
  cases he with
  | self _ hc => exact absurd hc hcur
  | other _ hlive _ hperm =>
      obtain ⟨c, hc, hsame | hparent⟩ := hperm rfl
      · -- the ids of two live environments differ in the number of the slot
        have hslot := (h.live_id c (h.cur_live c hc)).2
        rw [← hsame, (h.live_id _ hlive).2] at hslot
        exact absurd (hslot ▸ hc) hcur
      · exact ⟨c, hc, fun heq => hcur (heq ▸ hc), hparent⟩

lemma notMem_of_live (h : EnvInv k) (he : (k.envs e).envStatus ≠ .free) : e ∉ k.envFreeList :=
  fun hmem => he (h.free_free e hmem)

/-- A live environment changes, and stays live. -/
lemma update (h : EnvInv k) (he : (k.envs e).envStatus ≠ .free) {v : Env}
    (henvs : k'.envs = Function.update k.envs e v) (hv : v.envStatus ≠ .free)
    (hid : v.envId = (k.envs e).envId) (hl : k'.envFreeList = k.envFreeList)
    (hc : k'.curenv = k.curenv) : EnvInv k' := by
  refine ⟨hl ▸ h.free_nodup, fun e' he' => ?_, fun c hcur => ?_, hl ▸ h.free_le, fun e' he' => ?_⟩
  · rw [hl] at he'
    have hne : e' ≠ e := fun heq => h.notMem_of_live he (heq ▸ he')
    rw [henvs, Function.update_of_ne hne]
    exact h.free_free e' he'
  · rw [henvs]
    by_cases hce : c = e
    · rw [hce, Function.update_self]
      exact hv
    · rw [Function.update_of_ne hce]
      exact h.cur_live c (hc ▸ hcur)
  · rw [henvs] at he' ⊢
    by_cases hee : e' = e
    · rw [hee, Function.update_self, hid]
      exact h.live_id e he
    · rw [Function.update_of_ne hee] at he' ⊢
      exact h.live_id e' he'

/-- The environment at the head of the list is taken. -/
lemma born (h : EnvInv k) {rest : List ℕ} (hfree : k.envFreeList = e :: rest) {v : Env}
    (hl : k'.envFreeList = rest) (hid : v.envId = k.nextId e)
    (henvs : k'.envs = Function.update k.envs e v) (hc : k'.curenv = k.curenv) : EnvInv k' := by
  have hnd := h.free_nodup
  rw [hfree, List.nodup_cons] at hnd
  have hold : ∀ e' ≠ e, (k'.envs e').envStatus = (k.envs e').envStatus := by
    intro e' hne
    rw [henvs, Function.update_of_ne hne]
  have hle : ∀ e' ∈ e :: rest, e' ≤ NENV := hfree ▸ h.free_le
  refine ⟨hl ▸ hnd.2, fun e' he' => ?_, fun c hcur => ?_,
    hl ▸ fun e' he' => hle e' (List.mem_cons_of_mem e he'), fun e' he' => ?_⟩
  · rw [hl] at he'
    rw [hold e' (fun heq => hnd.1 (heq ▸ he'))]
    exact h.free_free e' (hfree ▸ List.mem_cons_of_mem e he')
  · rw [hc] at hcur
    have hne : c ≠ e := by
      rintro rfl
      exact h.cur_live c hcur (h.free_free c (by simp [hfree]))
    rw [hold c hne]
    exact h.cur_live c hcur
  · rw [henvs] at he' ⊢
    by_cases hee : e' = e
    · rw [hee, Function.update_self, hid]
      have hle' := hle e List.mem_cons_self
      exact ⟨hle', nextId_mod k hle'⟩
    · rw [Function.update_of_ne hee] at he' ⊢
      exact h.live_id e' he'

/-- `env_free` of a live environment that does not run, or no longer. -/
lemma freed (h : EnvInv k) (he : (k.envs e).envStatus ≠ .free) (m : Pmap) (q : TailQueue.Queue ℕ)
    {cur : Option ℕ} (hcur : ∀ c, cur = some c → c ≠ e ∧ k.curenv = some c) :
    EnvInv { k.freed e m q with curenv := cur } := by
  have hold : ∀ e' ≠ e, (k.freed e m q).envs e' = k.envs e' :=
    fun e' hne => Function.update_of_ne hne _ _
  refine ⟨List.nodup_cons.mpr ⟨h.notMem_of_live he, h.free_nodup⟩, fun e' he' => ?_,
    fun c hc => ?_, fun e' he' => ?_, fun e' he' => ?_⟩
  · by_cases hee : e' = e
    · subst hee
      simp [Kernel.freed]
    · change ((k.freed e m q).envs e').envStatus = .free
      rw [hold e' hee]
      exact h.free_free e' ((List.mem_cons.mp he').resolve_left hee)
  · obtain ⟨hne, hc'⟩ := hcur c hc
    change ((k.freed e m q).envs c).envStatus ≠ .free
    rw [hold c hne]
    exact h.cur_live c hc'
  · obtain rfl | he' := List.mem_cons.mp he'
    · exact (h.live_id e' he).1
    · exact h.free_le e' he'
  · have hee : e' ≠ e := by
      rintro rfl
      exact he' (by simp [Kernel.freed])
    change ((k.freed e m q).envs e').envStatus ≠ .free at he'
    change e' ≤ NENV ∧ ((k.freed e m q).envs e').envId.toNat % 2048 = e'
    rw [hold e' hee] at he' ⊢
    exact h.live_id e' he'

end EnvInv

section

variable {k k' : Kernel} {yield : Bool}

/-- What `schedule` leaves alone, and what it picks. -/
structure Kernel.Switched (k k' : Kernel) : Prop where
  envs : ∀ e, (k.envs e).SameButContext (k'.envs e)
  envFreeList : k'.envFreeList = k.envFreeList
  asidBitmap : k'.asidBitmap = k.asidBitmap
  mkenvidI : k'.mkenvidI = k.mkenvidI
  pm : k'.pm = k.pm
  audit : k'.audit = k.audit
  cur : ∃ e, k'.curenv = some e ∧ (k'.envs e).envStatus = .runnable

lemma Kernel.Scheduled.switched (h : k.Scheduled yield k') : k.Switched k' := by
  cases h with
  | @stay c _ _ _ hrun =>
      have hsame := running_sameButContext { k with schedCount := k.schedCount - 1#32 } c
      exact ⟨hsame, rfl, rfl, rfl, rfl, rfl, c, rfl, (hsame c).envStatus.trans hrun⟩
  | @pick q e _ _ _ hrun =>
      have hsame := running_sameButContext
        { k with envSchedList := q, schedCount := (k.envs e).envPri - 1#32 } e
      exact ⟨hsame, rfl, rfl, rfl, rfl, rfl, e, rfl, (hsame e).envStatus.trans hrun⟩

end

namespace EnvInv

variable {k k' : Kernel} {call : Syscall} {r : Except Exit Word} {tf : Trapframe} {gone : Bool}
  {ev : Event}

lemma switched (h : EnvInv k) (hs : k.Switched k') : EnvInv k' := by
  refine ⟨hs.envFreeList ▸ h.free_nodup, fun e he => ?_, fun c hc => ?_,
    hs.envFreeList ▸ h.free_le, fun e he => ?_⟩
  · rw [(hs.envs e).envStatus]
    exact h.free_free e (hs.envFreeList ▸ he)
  · obtain ⟨e, he, hrun⟩ := hs.cur
    obtain rfl := Option.some.inj (he.symm.trans hc)
    rw [hrun]
    decide
  · rw [(hs.envs e).envStatus] at he
    rw [(hs.envs e).envId]
    exact h.live_id e he

/-- **Every system call keeps the invariant.** -/
lemma syscall (h : EnvInv k) (ha : Syscall.Acts k call r k') : EnvInv k' := by
  cases ha with
  | plain _ hk => exact h.like hk
  | failed _ hk => exact h.like hk
  | yield hs => exact h.switched hs.switched
  | @destroy envid e m q he hcur hq =>
      exact h.freed (h.live_of_resolves he) m q fun c hc => ⟨fun heq => hcur (heq ▸ hc), hc⟩
  | @destroySelf envid e m q k' he hcur hq hs =>
      have h' : EnvInv { k.freed e m q with curenv := none } :=
        h.freed (h.live_of_resolves he) m q nofun
      exact h'.switched hs.switched
  | setTlbModEntry he =>
      have hlive := h.live_of_resolves he
      exact h.update hlive rfl hlive rfl rfl rfl
  | @notForked c e pp rest prest hcur hfree =>
      have hfreed : (k.envs e).envStatus = .free := h.free_free e (by simp [hfree])
      refine h.congr rfl (fun e' => ?_) (fun e' he' => ?_) rfl
      · by_cases hee : e' = e <;> simp [Kernel.prepared, hee]
      · have hee : e' ≠ e := fun heq => he' (heq ▸ hfreed)
        simp [Kernel.prepared, hee]
  | forked hcur hfree =>
      exact h.born hfree rfl (by simp [Kernel.allocated]) (Function.update_idem _ _ _) rfl
  | wake he => exact h.update (h.live_of_resolves he) rfl (by simp) rfl rfl rfl
  | block he => exact h.update (h.live_of_resolves he) rfl (by simp) rfl rfl rfl
  | sameStatus => exact h
  | setTrapframeSelf he _ _ hk => exact (h.like hk).setKtf _
  | setTrapframe he _ _ hk =>
      obtain ⟨m, dev, rfl⟩ := hk
      have hlive := h.live_of_resolves he
      exact h.update hlive rfl hlive rfl rfl rfl
  | sent he _ _ _ hk =>
      obtain ⟨m, dev, rfl⟩ := hk
      exact h.update (h.live_of_resolves he) rfl (by simp) rfl rfl rfl
  | sentLate _ _ _ he _ _ _ hk =>
      obtain ⟨m, dev, rfl⟩ := hk
      exact h.update (h.live_of_resolves he) rfl (by simp) rfl rfl rfl
  | @received dstva c q k' _ hcur hq hs =>
      have h' : EnvInv (k.receiving c dstva q) :=
        h.update (h.cur_live c hcur) rfl (by simp) rfl rfl rfl
      exact h'.switched hs.switched

/-- **Every trap keeps the invariant.** -/
lemma trap (h : EnvInv k) (ha : tf.Acts k gone k') : EnvInv k' := by
  cases ha with
  | tick _ hs =>
      exact (h.setKtf tf).switched hs.switched
  | noCall => exact h.setKtf _
  | call _ hs => exact ((h.setKtf _).syscall hs).setKtf _
  | callFailed _ hs => exact ((h.setKtf _).syscall hs).setKtf _
  | callGone _ hs => exact (h.setKtf _).syscall hs
  | fault _ hk => exact (h.setKtf tf).like hk
  | queryVpt _ _ _ _ _ hk => exact ((h.setKtf _).like hk).setKtf _
  | userMod _ hk => exact ((h.setKtf _).like hk).setKtf _

/-- **Every event keeps the invariant.** -/
lemma event (h : EnvInv k) (ha : ev.Acts k k') : EnvInv k' := by
  cases ha with
  | create hcur hfree _ _ _ hk =>
      obtain ⟨m, dev, rfl⟩ := hk
      exact h.born hfree rfl (by simp [Kernel.newborn]) (Function.update_idem _ _ _) rfl
  | trap _ ha => exact h.trap ha
  | store _ hk => exact h.like hk

lemma boots {mc : Machine} (h : mc.Boots k) : EnvInv k := by
  obtain ⟨dev, T, -, -, hb⟩ := h.booted false false nofun
  exact ⟨hb.kInv.free_nodup, fun e he => (hb.kInv.free_free e he).1,
    fun c hc => absurd (hb.curenv.symm.trans hc) nofun, fun e he => (hb.kInv.free_free e he).2,
    fun e he => absurd (h.env_free e) he⟩

end EnvInv

/-- **In every run of any events the invariant holds in every state.** -/
theorem Reaches.envInv {mc : Machine} {C : Kernel → Event → Prop} {k : Kernel}
    (h : Reaches mc C k) : EnvInv k :=
  Reachable.invariant h (fun _ hk => .boots hk) fun _ _ _ hk hs => hk.event hs.2.acts

end MosRv
