import MosRv.EnvInv

/-!
# The table of environments: slots, ASIDs and ids

`TableStep` is a machine whose steps are `env_alloc` and `env_free`, as the kernel runs them, in any
order; what else happens in the kernel is left open, as long as it does not touch the table
(`Kernel.SameTable`).  A history goes along: which envs have been allocated and not freed since, and
every id that was handed out.

`TableInv` is the invariant.  The slots are shared out between the live envs and `env_free_list`;
the ASID bitmap says which ASIDs the live envs have.  As there are `NASID` of these, `env_free_list`
never becomes short, and its last element stays what `env_init` put there first: `envs[NENV]`, which
lies behind the array.

`IdsInv` is about the counter in `mkenvid`: until it reaches `2 ^ 20`, an id shows the number of the
call that made it, so that no id comes twice.
-/

namespace MosRv

open Prog Reach

/-! ## The ASID bitmap -/

/-- A set bit of the ASID bitmap, after `asid_free` has cleared one. -/
lemma asidUsed_clearAsid (bitmap : ℕ → Word) (c : Word) (i : ℕ) :
    asidUsed (clearAsid bitmap c) i = (asidUsed bitmap i && decide (i ≠ c.toNat)) := by
  have hand : ∀ n : ℕ, n &&& 31 = n % 32 := fun n => Nat.and_two_pow_sub_one_eq_mod n 5
  have hshift : ∀ n : ℕ, n >>> 5 = n / 32 := fun n => Nat.shiftRight_eq_div_pow n 5
  have hlt : ∀ n : ℕ, n % 32 < 32 := fun n => Nat.mod_lt n (by decide)
  have hidx : (c >>> 5).toNat = c.toNat / 32 := by rw [BitVec.toNat_ushiftRight, hshift]
  have hbit : (c &&& 31#32).toNat = c.toNat % 32 := by
    rw [BitVec.toNat_and, BitVec.toNat_ofNat, ← hand]
  simp only [asidUsed, clearAsid, hand, hshift, hidx, hbit, hasFlag_shiftLeft (hlt i),
    Bool.decide_eq_true]
  rw [Function.update_apply]
  have := hlt i
  split_ifs with hq
  · rw [BitVec.getLsbD_and, BitVec.getLsbD_not, BitVec.getLsbD_shiftLeft, hq]
    congr 1
    simp only [BitVec.getLsbD_one]
    rw [Bool.eq_iff_iff]
    simp
    omega
  · have hne : i ≠ c.toNat := fun h => hq (by rw [h])
    simp [hne]

/-! ## The machine -/

/-- What is remembered of a run. -/
structure History where
  /-- The envs allocated and not freed since, with the ids they were given. -/
  live : List (Word × ℕ)
  /-- Every id handed out, with the env it was given to; the last one first. -/
  ids : List (Word × ℕ)

namespace History

/-- Nothing has happened. -/
def start : History := ⟨[], []⟩

/-- `env_alloc` returned `e`, whose id is `id`. -/
def alloc (h : History) (id : Word) (e : ℕ) : History := ⟨(id, e) :: h.live, (id, e) :: h.ids⟩

/-- `env_free(e)`. -/
def free (h : History) (e : ℕ) : History := ⟨h.live.filter fun x => x.2 ≠ e, h.ids⟩

/-- The slots that are taken. -/
def slots (h : History) : List ℕ := h.live.map Prod.snd

end History

/-- Nothing that `env_alloc` and `env_free` keep the table with has changed. -/
structure Kernel.SameTable (k k' : Kernel) : Prop where
  envFreeList : k'.envFreeList = k.envFreeList
  asidBitmap : k'.asidBitmap = k.asidBitmap
  mkenvidI : k'.mkenvidI = k.mkenvidI
  envId : ∀ e, (k'.envs e).envId = (k.envs e).envId
  envAsid : ∀ e, (k'.envs e).envAsid = (k.envs e).envAsid
  /-- The env of a free slot is not given a status … -/
  status_free : ∀ e ∈ k.envFreeList, (k'.envs e).envStatus = (k.envs e).envStatus
  /-- … and only `env_free` makes one free. -/
  status_live : ∀ e ∉ k.envFreeList, (k.envs e).envStatus ≠ .free → (k'.envs e).envStatus ≠ .free

inductive TableEvent
  | alloc (parentId : Word)
  /-- What `env_create` does with a new env: it becomes runnable. -/
  | enter (e : ℕ)
  | free (e : ℕ)
  | other

/-- The end of `env_create`. -/
def enter (e : ℕ) : KernelM Unit := do
  modifyEnv e fun v => { v with envStatus := .runnable }
  onSchedList (.insertHead e)

/-- **One step of the table.** -/
inductive TableStep (x : Kernel × History) : TableEvent → Kernel × History → Prop
  | alloc {parentId : Word} {e : ℕ} {k' : Kernel} (h : envAlloc parentId x.1 = .ok e k') :
      TableStep x (.alloc parentId) (k', x.2.alloc (k'.envs e).envId e)
  | allocFailed {parentId : Word} {c : Exit} {k' : Kernel}
      (h : envAlloc parentId x.1 = .exit c k') : TableStep x (.alloc parentId) (k', x.2)
  | enter {e : ℕ} {k' : Kernel} (he : e ∈ x.2.slots) (h : MosRv.enter e x.1 = .ok () k') :
      TableStep x (.enter e) (k', x.2)
  | free {e : ℕ} {k' : Kernel} (he : e ∈ x.2.slots) (h : envFree e x.1 = .ok () k') :
      TableStep x (.free e) (k', x.2.free e)
  | other {k' : Kernel} (h : x.1.SameTable k') : TableStep x .other (k', x.2)

/-- The states the table reaches, by steps in `C`. -/
def TableReaches (mc : Machine) (C : Kernel × History → TableEvent → Prop) :
    Kernel × History → Prop :=
  Reachable (fun x => mc.Boots x.1 ∧ x.2 = .start) (When C TableStep)

section

variable {k k' : Kernel} {parentId : Word} {e : ℕ} {c : Exit}

/-- `env_alloc` succeeds. -/
lemma envAlloc_ok (h : envAlloc parentId k = .ok e k') : ∃ rest pp prest i,
    k.envFreeList = e :: rest ∧ k.pm.pageFreeList = pp :: prest ∧
      ((List.range NASID).find? fun i => !asidUsed k.asidBitmap i) = some i ∧
      k' = k.allocated e rest pp prest parentId i := by
  have hwp : wp (envAlloc parentId) k (fun e k' => ∃ rest pp prest i,
      k.envFreeList = e :: rest ∧ k.pm.pageFreeList = pp :: prest ∧
        ((List.range NASID).find? fun i => !asidUsed k.asidBitmap i) = some i ∧
        k' = k.allocated e rest pp prest parentId i) (fun _ _ => True) fun _ => True := by
    rw [wp_envAlloc]
    cases hfree : k.envFreeList with
    | nil => trivial
    | cons e rest =>
        cases hpage : k.pm.pageFreeList with
        | nil => trivial
        | cons pp prest =>
            cases hasid : (List.range NASID).find? fun i => !asidUsed k.asidBitmap i with
            | none => trivial
            | some i => exact ⟨rest, pp, prest, i, rfl, rfl, rfl, rfl⟩
  exact hwp.of_ok h

lemma run_envAlloc {rest prest : List ℕ} {pp i : ℕ} (hl : k.envFreeList = e :: rest)
    (hf : k.pm.pageFreeList = pp :: prest)
    (hi : ((List.range NASID).find? fun i => !asidUsed k.asidBitmap i) = some i) :
    envAlloc parentId k = .ok e (k.allocated e rest pp prest parentId i) := by
  have hwp : wp (envAlloc parentId) k (fun e' k' => e' = e ∧
    k' = k.allocated e rest pp prest parentId i)
      (fun _ _ => False) fun _ => False := by
    rw [wp_envAlloc, hl, hf, hi]
    exact ⟨rfl, rfl⟩
  obtain ⟨e', k', hrun, rfl, rfl⟩ := hwp.exists_ok
  exact hrun

lemma allocated_envId {rest prest : List ℕ} {pp i : ℕ} :
    ((k.allocated e rest pp prest parentId i).envs e).envId = k.nextId e := by
  simp [Kernel.allocated, Kernel.nextId]

/-- `env_alloc` fails: before it has changed anything, or for lack of an ASID. -/
lemma envAlloc_exit (h : envAlloc parentId k = .exit c k') :
    (k' = k ∧ (c = .code .noFreeEnv → k.envFreeList = [])) ∨ ∃ e rest pp prest,
      k.envFreeList = e :: rest ∧ k.pm.pageFreeList = pp :: prest ∧
        ((List.range NASID).find? fun i => !asidUsed k.asidBitmap i) = none ∧
        k' = k.prepared e pp prest parentId := by
  have hwp : wp (envAlloc parentId) k (fun _ _ => True) (fun c k' =>
      (k' = k ∧ (c = .code .noFreeEnv → k.envFreeList = [])) ∨ ∃ e rest pp prest,
        k.envFreeList = e :: rest ∧ k.pm.pageFreeList = pp :: prest ∧
          ((List.range NASID).find? fun i => !asidUsed k.asidBitmap i) = none ∧
          k' = k.prepared e pp prest parentId) fun _ => True := by
    rw [wp_envAlloc]
    cases hfree : k.envFreeList with
    | nil => exact .inl ⟨rfl, fun _ => rfl⟩
    | cons e rest =>
        cases hpage : k.pm.pageFreeList with
        | nil => exact .inl ⟨rfl, nofun⟩
        | cons pp prest =>
            cases hasid : (List.range NASID).find? fun i => !asidUsed k.asidBitmap i with
            | none => exact .inr ⟨e, rest, pp, prest, rfl, rfl, rfl, rfl⟩
            | some i => trivial
  exact hwp.of_exit h

lemma envFree_ok (h : envFree e k = .ok () k') : ∃ m q, k' = k.freed e m q := by
  obtain ⟨m, q, -, hk'⟩ := (wp_envFree_acts k e).of_ok h
  exact ⟨m, q, hk'⟩

end

/-! ## Slots and ASIDs -/

/-- **The table invariant**, for the envs `live`. -/
structure TableInv (k : Kernel) (live : List ℕ) : Prop where
  /-- Every slot is live or on the list, and none is twice. -/
  perm : (live ++ k.envFreeList).Perm (List.range (NENV + 1))
  last : ∃ front, k.envFreeList = front ++ [NENV]
  used : ∀ i < NASID, asidUsed k.asidBitmap i = true ↔ ∃ e ∈ live, (k.envs e).envAsid.toNat = i
  asid_lt : ∀ e ∈ live, (k.envs e).envAsid.toNat < NASID
  asid_inj : ∀ e ∈ live, ∀ e' ∈ live, (k.envs e).envAsid = (k.envs e').envAsid → e = e'
  status_free : ∀ e ∈ k.envFreeList, (k.envs e).envStatus = .free

namespace TableInv

variable {k k' : Kernel} {live : List ℕ} {e : ℕ}

lemma nodup (h : TableInv k live) : (live ++ k.envFreeList).Nodup :=
  h.perm.nodup_iff.mpr List.nodup_range

lemma live_nodup (h : TableInv k live) : live.Nodup := (List.nodup_append.mp h.nodup).1

lemma not_free (h : TableInv k live) (he : e ∈ live) : e ∉ k.envFreeList :=
  fun hf => (List.nodup_append.mp h.nodup).2.2 e he e hf rfl

/-- There are not more live envs than ASIDs. -/
lemma length_le (h : TableInv k live) : live.length ≤ NASID := by
  have hinj : (live.map fun e => (k.envs e).envAsid.toNat).Nodup :=
    h.live_nodup.map_on fun e he e' he' heq => h.asid_inj e he e' he' (BitVec.eq_of_toNat_eq heq)
  have hsub : (live.map fun e => (k.envs e).envAsid.toNat) ⊆ List.range NASID := by
    intro i hi
    obtain ⟨e, he, rfl⟩ := List.mem_map.mp hi
    exact List.mem_range.mpr (h.asid_lt e he)
  have hle := (hinj.subperm hsub).length_le
  rwa [List.length_map, List.length_range] at hle

/-- … so `env_free_list` is long … -/
lemma length_envFreeList (h : TableInv k live) : NENV + 1 - NASID ≤ k.envFreeList.length := by
  have hlen := h.perm.length_eq
  rw [List.length_append, List.length_range] at hlen
  have := h.length_le
  omega

/-- … and its head is a slot of the array. -/
lemma head_lt (h : TableInv k live) {rest : List ℕ} (hl : k.envFreeList = e :: rest) :
    e < NENV ∧ ∃ front, rest = front ++ [NENV] := by
  obtain ⟨front, hfront⟩ := h.last
  have hlen := h.length_envFreeList
  cases front with
  | nil =>
      rw [hfront, List.nil_append, List.length_singleton] at hlen
      exact absurd hlen (by decide)
  | cons e' front =>
      rw [hl, List.cons_append, List.cons.injEq] at hfront
      obtain ⟨rfl, rfl⟩ := hfront
      refine ⟨?_, front, rfl⟩
      have hle : e ∈ List.range (NENV + 1) := h.perm.mem_iff.mp (by simp [hl])
      have hne : e ≠ NENV := by
        rintro rfl
        have hnd := (List.nodup_append.mp h.nodup).2.1
        rw [hl, List.nodup_cons] at hnd
        exact hnd.1 (by simp)
      rw [List.mem_range] at hle
      omega

/-- Where no ASID is left, `NASID` envs are live. -/
lemma length_eq (h : TableInv k live)
    (hnone : ((List.range NASID).find? fun i => !asidUsed k.asidBitmap i) = none) :
    live.length = NASID := by
  refine le_antisymm h.length_le ?_
  have hsub : List.range NASID ⊆ live.map fun e => (k.envs e).envAsid.toNat := by
    intro i hi
    have hused := List.find?_eq_none.mp hnone i hi
    rw [Bool.not_eq_true, Bool.not_eq_false'] at hused
    exact List.mem_map.mpr ((h.used i (List.mem_range.mp hi)).mp hused)
  have hle := (List.nodup_range.subperm hsub).length_le
  rwa [List.length_map, List.length_range] at hle

lemma boots {mc : Machine} (h : mc.Boots k) : TableInv k [] := by
  obtain ⟨dev, T, -, -, hb⟩ := h.booted false false nofun
  have hpop := hb.populated
  have hfree := hpop.free
  rw [Nat.sub_zero, ← List.range_eq_range'] at hfree
  refine ⟨by rw [hfree, List.nil_append], ⟨List.range NENV, by rw [hfree, List.range_succ]⟩,
    ?_, by simp,
    by simp, ?_⟩
  · intro i _
    simp [hpop.asid]
  · exact fun e _ => h.env_free e

lemma allocated (h : TableInv k live) {rest prest : List ℕ} {pp i : ℕ} {parentId : Word}
    (hl : k.envFreeList = e :: rest)
    (hi : ((List.range NASID).find? fun i => !asidUsed k.asidBitmap i) = some i) :
    TableInv (k.allocated e rest pp prest parentId i) (e :: live) := by
  have hlt : i < NASID := List.mem_range.mp (List.mem_of_find?_eq_some hi)
  have hNASID : NASID = 64 := rfl
  have hfree : asidUsed k.asidBitmap i = false := by simpa using List.find?_some hi
  have hnot : e ∉ live := fun he => h.not_free he (by simp [hl])
  have hnew : ((k.allocated e rest pp prest parentId i).envs e).envAsid.toNat = i := by
    simp only [Kernel.allocated, Function.update_self, BitVec.toNat_ofNat]
    omega
  have hold : ∀ e' ∈ live,
      ((k.allocated e rest pp prest parentId i).envs e').envAsid = (k.envs e').envAsid := by
    intro e' he'
    have hne : e' ≠ e := fun hc => hnot (hc ▸ he')
    simp only [Kernel.allocated, Function.update_of_ne hne]
  have hother : ∀ e' ∈ live, (k.envs e').envAsid.toNat ≠ i := by
    intro e' he' heq
    rw [(h.used i hlt).mpr ⟨e', he', heq⟩] at hfree
    exact absurd hfree (by decide)
  refine ⟨?_, (h.head_lt hl).2, ?_, ?_, ?_, ?_⟩
  · refine List.Perm.trans ?_ h.perm
    rw [hl]
    exact List.perm_middle.symm
  · intro j hj
    change asidUsed (Function.update _ _ _) j = true ↔ _
    rw [asidUsed_update, Bool.or_eq_true, h.used j hj, decide_eq_true_iff]
    simp only [List.mem_cons, exists_eq_or_imp, hnew]
    constructor
    · rintro (⟨e', he', rfl⟩ | rfl)
      · exact .inr ⟨e', he', by rw [hold e' he']⟩
      · exact .inl rfl
    · rintro (rfl | ⟨e', he', rfl⟩)
      · exact .inr rfl
      · exact .inl ⟨e', he', by rw [hold e' he']⟩
  · intro e' he'
    rcases List.mem_cons.mp he' with rfl | he'
    · rwa [hnew]
    · rw [hold e' he']
      exact h.asid_lt e' he'
  · intro e₁ h₁ e₂ h₂ heq
    have hnat := congrArg BitVec.toNat heq
    rcases List.mem_cons.mp h₁ with rfl | hl₁ <;> rcases List.mem_cons.mp h₂ with rfl | hl₂
    · rfl
    · rw [hnew, hold e₂ hl₂] at hnat
      exact absurd hnat.symm (hother e₂ hl₂)
    · rw [hnew, hold e₁ hl₁] at hnat
      exact absurd hnat (hother e₁ hl₁)
    · rw [hold e₁ hl₁, hold e₂ hl₂] at heq
      exact h.asid_inj e₁ hl₁ e₂ hl₂ heq
  · intro e' he'
    have hne : e' ≠ e := by
      rintro rfl
      have hnd := (List.nodup_append.mp h.nodup).2.1
      rw [hl, List.nodup_cons] at hnd
      exact hnd.1 he'
    simp only [Kernel.allocated, Function.update_of_ne hne]
    exact h.status_free e' (by rw [hl]; exact List.mem_cons_of_mem _ he')

/-- Everything the invariant looks at is the same, the ids apart. -/
lemma congr (h : TableInv k live) (hfree : k'.envFreeList = k.envFreeList)
    (hbits : k'.asidBitmap = k.asidBitmap)
    (hasid : ∀ e ∈ live, (k'.envs e).envAsid = (k.envs e).envAsid)
    (hstatus : ∀ e ∈ k.envFreeList, (k'.envs e).envStatus = (k.envs e).envStatus) :
    TableInv k' live := by
  refine ⟨hfree ▸ h.perm, hfree ▸ h.last, ?_, ?_, ?_, ?_⟩
  · intro i hi
    rw [hbits, h.used i hi]
    exact exists_congr fun e => and_congr_right fun he => by rw [hasid e he]
  · exact fun e he => hasid e he ▸ h.asid_lt e he
  · exact fun e he e' he' heq => h.asid_inj e he e' he' (by rwa [hasid e he, hasid e' he'] at heq)
  · intro e he
    rw [hfree] at he
    rw [hstatus e he, h.status_free e he]

lemma prepared (h : TableInv k live) {rest prest : List ℕ} {pp : ℕ} {parentId : Word}
    (hl : k.envFreeList = e :: rest) : TableInv (k.prepared e pp prest parentId) live := by
  have hnot : e ∉ live := fun he => h.not_free he (by simp [hl])
  refine h.congr rfl rfl (fun e' he' => ?_) fun e' _ => ?_
  · have hne : e' ≠ e := fun hc => hnot (hc ▸ he')
    simp only [Kernel.prepared, Function.update_of_ne hne]
  · by_cases hee : e' = e
    · subst hee
      simp [Kernel.prepared]
    · simp [Kernel.prepared, hee]

lemma freed (h : TableInv k live) (he : e ∈ live) (m : Pmap) (q : TailQueue.Queue ℕ) :
    TableInv (k.freed e m q) (live.filter (· ≠ e)) := by
  have hasid : ∀ e', ((k.freed e m q).envs e').envAsid = (k.envs e').envAsid := by
    intro e'
    by_cases hee : e' = e
    · subst hee
      simp [Kernel.freed]
    · simp [Kernel.freed, hee]
  have hmem : ∀ e', e' ∈ live.filter (· ≠ e) ↔ e' ∈ live ∧ e' ≠ e := by simp
  have herase : live.filter (· ≠ e) = live.erase e := by
    rw [h.live_nodup.erase_eq_filter]
    refine List.filter_congr fun e' _ => ?_
    by_cases hee : e' = e <;> simp [hee]
  refine ⟨?_, ?_, ?_, ?_, ?_, ?_⟩
  · refine List.Perm.trans ?_ h.perm
    refine List.perm_middle.trans ?_
    rw [← List.cons_append]
    refine List.Perm.append_right _ ?_
    rw [herase]
    exact (List.perm_cons_erase he).symm
  · obtain ⟨front, hfront⟩ := h.last
    exact ⟨e :: front, congrArg (e :: ·) hfront⟩
  · intro i hi
    change asidUsed (clearAsid _ _) i = true ↔ _
    rw [asidUsed_clearAsid, Bool.and_eq_true, h.used i hi, decide_eq_true_iff]
    simp only [hmem, hasid]
    constructor
    · rintro ⟨⟨e', he', rfl⟩, hne⟩
      exact ⟨e', ⟨he', fun hc => hne (by rw [hc])⟩, rfl⟩
    · rintro ⟨e', ⟨he', hne⟩, rfl⟩
      exact ⟨⟨e', he', rfl⟩, fun hc => hne (h.asid_inj e' he' e he (BitVec.eq_of_toNat_eq hc))⟩
  · intro e' he'
    rw [hasid]
    exact h.asid_lt e' ((hmem e').mp he').1
  · intro e₁ h₁ e₂ h₂ heq
    rw [hasid, hasid] at heq
    exact h.asid_inj e₁ ((hmem e₁).mp h₁).1 e₂ ((hmem e₂).mp h₂).1 heq
  · intro e' he'
    by_cases hee : e' = e
    · subst hee
      simp [Kernel.freed]
    · simp only [Kernel.freed, Function.update_of_ne hee]
      exact h.status_free e' ((List.mem_cons.mp he').resolve_left hee)

lemma sameTable (h : TableInv k live) (hs : k.SameTable k') : TableInv k' live :=
  h.congr hs.envFreeList hs.asidBitmap (fun e _ => hs.envAsid e) hs.status_free

end TableInv

@[simp] lemma History.slots_alloc (h : History) (id : Word) (e : ℕ) :
    (h.alloc id e).slots = e :: h.slots := rfl

@[simp] lemma History.slots_free (h : History) (e : ℕ) :
    (h.free e).slots = h.slots.filter (· ≠ e) := by
  rw [slots, slots, List.filter_map]
  rfl

section

variable {mc : Machine} {C : Kernel × History → TableEvent → Prop} {x x' : Kernel × History}
  {ev : TableEvent} {k k' : Kernel} {e : ℕ}

/-- `env_create` puts a live env on `env_sched_list`. -/
lemma enter_ok (h : enter e k = .ok () k') : ∃ q, k' = k.withStatus e .runnable q := by
  have hwp : wp (enter e) k (fun _ k' => ∃ q, k' = k.withStatus e .runnable q)
      (fun _ _ => True) fun _ => True := by
    rw [enter, wp_bind, wp_modifyEnv]
    exact wp_onSchedList trivial trivial fun q _ => ⟨q, rfl⟩
  exact hwp.of_ok h

lemma TableInv.sameTable_withStatus {live : List ℕ} (h : TableInv k live) (he : e ∈ live)
    {status : EnvStatus} (hs : status ≠ .free) (q : TailQueue.Queue ℕ) :
    k.SameTable (k.withStatus e status q) := by
  refine ⟨rfl, rfl, rfl, ?_, ?_, ?_, ?_⟩
  · intro e'
    by_cases hee : e' = e <;> simp [Kernel.withStatus, hee]
  · intro e'
    by_cases hee : e' = e <;> simp [Kernel.withStatus, hee]
  · intro e' he'
    have hee : e' ≠ e := by
      rintro rfl
      exact h.not_free he he'
    simp [Kernel.withStatus, hee]
  · intro e' _ hlive
    by_cases hee : e' = e
    · simpa [Kernel.withStatus, hee] using hs
    · simpa [Kernel.withStatus, hee] using hlive

/-- What a step does to the table, `enter` being one of the others. -/
inductive TableChange (x : Kernel × History) : TableEvent → Kernel × History → Prop
  | alloc {parentId : Word} {e pp i : ℕ} {rest prest : List ℕ} (hl : x.1.envFreeList = e :: rest)
      (hf : x.1.pm.pageFreeList = pp :: prest)
      (hi : ((List.range NASID).find? fun i => !asidUsed x.1.asidBitmap i) = some i) :
      TableChange x (.alloc parentId)
        (x.1.allocated e rest pp prest parentId i, x.2.alloc (x.1.nextId e) e)
  | allocFailed {parentId : Word} {e pp : ℕ} {rest prest : List ℕ}
      (hl : x.1.envFreeList = e :: rest) (hf : x.1.pm.pageFreeList = pp :: prest) :
      TableChange x (.alloc parentId) (x.1.prepared e pp prest parentId, x.2)
  | free {e : ℕ} {m : Pmap} {q : TailQueue.Queue ℕ} (he : e ∈ x.2.slots) :
      TableChange x (.free e) (x.1.freed e m q, x.2.free e)
  | same {ev : TableEvent} {k' : Kernel} (h : x.1.SameTable k') : TableChange x ev (k', x.2)

lemma Kernel.SameTable.refl : k.SameTable k :=
  ⟨rfl, rfl, rfl, fun _ => rfl, fun _ => rfl, fun _ _ => rfl, fun _ _ h => h⟩

lemma TableStep.change (h : TableStep x ev x') (hinv : TableInv x.1 x.2.slots) :
    TableChange x ev x' := by
  cases h with
  | @alloc parentId e k' h =>
      obtain ⟨rest, pp, prest, i, hl, hf, hi, rfl⟩ := envAlloc_ok h
      have hid : ((x.1.allocated e rest pp prest parentId i).envs e).envId = x.1.nextId e :=
        congrArg Env.envId (Function.update_self e _ x.1.envs)
      rw [hid]
      exact .alloc hl hf hi
  | allocFailed h =>
      rcases envAlloc_exit h with ⟨rfl, -⟩ | ⟨e, rest, pp, prest, hl, hf, -, rfl⟩
      · exact .same .refl
      · exact .allocFailed hl hf
  | enter he h =>
      obtain ⟨q, rfl⟩ := enter_ok h
      exact .same (hinv.sameTable_withStatus he (by decide) q)
  | free he h =>
      obtain ⟨m, q, rfl⟩ := envFree_ok h
      exact .free he
  | other h => exact .same h

/-- **Every step keeps the table invariant.** -/
lemma TableInv.step (h : TableInv x.1 x.2.slots) (hs : TableStep x ev x') :
    TableInv x'.1 x'.2.slots := by
  cases hs.change h with
  | alloc hl _ hi => exact h.allocated hl hi
  | allocFailed hl _ => exact h.prepared hl
  | free he =>
      rw [History.slots_free]
      exact h.freed he _ _
  | same hsame => exact h.sameTable hsame

lemma TableReaches.tableInv (h : TableReaches mc C x) : TableInv x.1 x.2.slots := by
  refine Reachable.invariant (I := fun x => TableInv x.1 x.2.slots) h ?_ ?_
  · rintro ⟨k, hist⟩ ⟨hboots, rfl⟩
    exact .boots hboots
  · exact fun x ev x' hinv hs => hinv.step hs.2

end

/-! ## Envs that come and go -/

/-- No env is live, and there is memory for one. -/
structure Idle (pp : ℕ) (prest : List ℕ) (k : Kernel) : Prop where
  slots : k.envFreeList = List.range (NENV + 1)
  pages : k.pm.pageFreeList = pp :: prest
  ref : k.pm.ppRef pp = 0#16
  lt_npage : pp < k.pm.npage
  npage_le : k.pm.npage ≤ 0x80000
  base : k.basePgdir ≠ pp
  asid : ∀ i, asidUsed k.asidBitmap i = false
  sched : TailQueue.Rep k.envSchedList []

/-- The first env, allocated in an idle state. -/
def Kernel.first (k : Kernel) (pp : ℕ) (prest : List ℕ) : Kernel :=
  k.allocated 0 (List.range' 1 NENV) pp prest 0#32 0

namespace Idle

variable {pp : ℕ} {prest : List ℕ} {k : Kernel}

lemma alloc (h : Idle pp prest k) : envAlloc 0#32 k = .ok 0 (k.first pp prest) := by
  have hslots : k.envFreeList = 0 :: List.range' 1 NENV := by
    rw [h.slots, List.range_eq_range', List.range'_succ]
  have hasid : ((List.range NASID).find? fun i => !asidUsed k.asidBitmap i) = some 0 := by
    rw [List.find?_eq_some_iff_getElem]
    exact ⟨by simp [h.asid], 0, by simp [NASID], by simp, nofun⟩
  exact run_envAlloc hslots h.pages hasid

lemma enter (h : Idle pp prest k) : MosRv.enter 0 (k.first pp prest) =
    .ok () ((k.first pp prest).withStatus 0 .runnable (k.envSchedList.insertHead 0)) := by
  have hwp : wp (MosRv.enter 0) (k.first pp prest) (fun _ k' => k' =
      (k.first pp prest).withStatus 0 .runnable (k.envSchedList.insertHead 0)) (fun _ _ => False)
      fun _ => False := by
    rw [MosRv.enter, wp_bind, wp_modifyEnv]
    refine wp_onSchedList_proper (q := k.envSchedList.insertHead 0) ?_ rfl rfl
    change decide (0 ∉ k.envSchedList.nodes (NENV + 1) k.envSchedList.first) = true
    rw [h.sched.nodes_eq (Nat.zero_le _)]
    rfl
  obtain ⟨u, k', hrun, rfl⟩ := hwp.exists_ok
  exact hrun

/-- The page part of `env_free`, for an env without pages. -/
lemma wp_freePages {m : Pmap} {d : ℕ} (asid : Word) (hempty : ∀ i < PDX UTOP, m.mem d i = 0#32)
    (href : m.ppRef d ≠ 0#16) (hlt : d < m.npage) (hle : m.npage ≤ 0x80000) :
    wp (do
      Prog.forRange (envFreePde d asid) 0 (PDX UTOP)
      let pa ← paddr (page2pa d)
      let p ← pa2page pa
      pageDecref p) m (fun _ m' => m' = m.release d) (fun _ _ => False) fun _ => False := by
  have hge : ¬ page2pa d < ULIM := by
    rw [BitVec.lt_def, page2pa_toNat (by omega), ULIM_toNat]
    omega
  rw [wp_bind]
  refine (wp_forRange (fun _ m' => m' = m) (PDX UTOP) 0 rfl ?_).mono ?_ (fun _ _ hf => hf)
    fun _ hf => hf
  · rintro i m' - hi rfl
    rw [Nat.zero_add] at hi
    rw [envFreePde, wp_bind, wp_get, if_neg (by rw [hempty i hi]; exact not_hasFlag_zero _)]
    rfl
  · rintro - m' rfl
    simp only [wp_bind, paddr, if_neg hge, wp_pure, wp_pa2page,
      frameOf_page2pa (show d < 0x80000 by omega), wp_pageDecref]
    exact ⟨fun hc => absurd hlt (not_lt.mpr hc), fun _ => ⟨href, fun _ => trivial⟩⟩

/-- The env is freed again, and the state is as before, the counter of `mkenvid` apart. -/
lemma free (h : Idle pp prest k) : ∃ k',
    envFree 0 ((k.first pp prest).withStatus 0 .runnable (k.envSchedList.insertHead 0)) =
      .ok () k' ∧ Idle pp prest k' ∧ k'.mkenvidI = k.mkenvidI + 1#32 := by
  obtain ⟨q, hq, hsched⟩ := (h.sched.insertHead (a := 0) (by simp)).remove (a := 0) (by simp)
  have hdir : (k.setupVm pp prest).ppRef pp = 1#16 := by
    change Function.update k.pm.ppRef pp (k.pm.ppRef pp + 1#16) pp = _
    rw [Function.update_self, h.ref]
    rfl
  have hempty : ∀ i < PDX UTOP, (k.setupVm pp prest).mem pp i = 0#32 := by
    intro i hi
    have : PDX UTOP ≤ 1024 := by decide
    rw [setupVm_mem_self h.base (by omega), if_pos (.inl hi)]
  have hwp : wp (envFree 0) ((k.first pp prest).withStatus 0 .runnable
      (k.envSchedList.insertHead 0)) (fun _ k' => Idle pp prest k' ∧
        k'.mkenvidI = k.mkenvidI + 1#32) (fun _ _ => False) fun _ => False := by
    rw [envFree, wp_bind, wp_get, wp_bind, wp_liftPm]
    simp only [Kernel.first, Kernel.withStatus, Kernel.allocated, Function.update_self,
      Function.update_idem]
    refine (wp_freePages _ hempty (by rw [hdir]; decide) h.lt_npage
      h.npage_le).mono ?_ (fun _ _ hf => hf) fun _ hf => hf
    rintro - m rfl
    simp only [wp_bind, asidFree, wp_modify, wp_modifyEnv]
    refine wp_onSchedList_proper (q := q) ?_ hq ⟨⟨?_, ?_, ?_, h.lt_npage, h.npage_le, h.base, ?_,
      hsched⟩, rfl⟩
    · change decide (0 ∈ (k.envSchedList.insertHead 0).nodes (NENV + 1)
        (k.envSchedList.insertHead 0).first) = true
      rw [(h.sched.insertHead (a := 0) (by simp)).nodes_eq (by simp)]
      rfl
    · change 0 :: List.range' 1 NENV = List.range (NENV + 1)
      rw [List.range_eq_range', List.range'_succ]
    · change (if (k.setupVm pp prest).ppRef pp - 1#16 = 0#16 then pp :: prest else prest) = _
      rw [hdir, if_pos (by decide)]
    · change Function.update (k.setupVm pp prest).ppRef pp ((k.setupVm pp prest).ppRef pp - 1#16) pp
        = _
      rw [Function.update_self, hdir]
      rfl
    · intro i
      change asidUsed (clearAsid (Function.update k.asidBitmap (0 >>> 5)
        (k.asidBitmap (0 >>> 5) ||| (1#32 <<< (0 &&& 31)))) 0#32) i = false
      rw [asidUsed_clearAsid, asidUsed_update, h.asid]
      simp
  obtain ⟨u, k', hrun, hk'⟩ := hwp.exists_ok
  exact ⟨k', hrun, hk'⟩

section

variable {mc : Machine} {C : Kernel × History → TableEvent → Prop} {hist : History}
  (hC : ∀ x ev, ev ≠ .other → (x.1.mkenvidI = k.mkenvidI ∨
    x.1.mkenvidI = k.mkenvidI + 1#32) → C x ev)
include hC

/-- An env is created. -/
lemma entered (h : Idle pp prest k) (hr : TableReaches mc C (k, hist)) :
    TableReaches mc C ((k.first pp prest).withStatus 0 .runnable (k.envSchedList.insertHead 0),
      hist.alloc (k.nextId 0) 0) := by
  have hid : ((k.first pp prest).envs 0).envId = k.nextId 0 := allocated_envId
  have h₁ := hr.step ⟨hC _ _ (by simp) (.inl rfl), .alloc h.alloc⟩
  rw [hid] at h₁
  exact h₁.step ⟨hC _ _ (by simp) (.inr rfl), .enter (by simp) h.enter⟩

/-- **A round**: an env is created and freed. -/
lemma round (h : Idle pp prest k) (hr : TableReaches mc C (k, hist)) :
    ∃ k', Idle pp prest k' ∧ k'.mkenvidI = k.mkenvidI + 1#32 ∧
      TableReaches mc C (k', (hist.alloc (k.nextId 0) 0).free 0) := by
  obtain ⟨k', hfree, hidle, hcount⟩ := h.free
  exact ⟨k', hidle, hcount,
    (h.entered hC hr).step ⟨hC _ _ (by simp) (.inr rfl), .free (by simp) hfree⟩⟩

/-- An env is created, and another one is allocated. -/
lemma second (h : Idle pp prest k) {pp' : ℕ} {prest' : List ℕ} (hprest : prest = pp' :: prest')
    (hr : TableReaches mc C (k, hist)) :
    ∃ k' id, id = ((k.mkenvidI + 1#32 + 1#32) <<< (1 + LOG2NENV)) ||| 1#32 ∧
      TableReaches mc C (k', (hist.alloc (k.nextId 0) 0).alloc id 1) := by
  have hfree : (k.first pp prest).envFreeList = 1 :: List.range' 2 (NENV - 1) := rfl
  have hasid : ((List.range NASID).find? fun i => !asidUsed (k.first pp prest).asidBitmap i) =
      some 1 := by
    have hused : ∀ i, asidUsed (k.first pp prest).asidBitmap i = decide (i = 0) := by
      intro i
      change asidUsed (Function.update _ _ _) i = _
      rw [asidUsed_update, h.asid, Bool.false_or]
    rw [List.find?_eq_some_iff_getElem]
    exact ⟨by simp [hused], 1, by simp [NASID], by simp, fun j hj => by simp [hused]; omega⟩
  have halloc : envAlloc 0#32 ((k.first pp prest).withStatus 0 .runnable
      (k.envSchedList.insertHead 0)) = _ :=
    run_envAlloc hfree (show (k.first pp prest).pm.pageFreeList = _ from hprest) hasid
  refine ⟨_, _, allocated_envId.trans ?_,
    (h.entered hC hr).step ⟨hC _ _ (by simp) (.inr rfl), .alloc halloc⟩⟩
  rw [Kernel.nextId]
  rfl

end

end Idle

/-- The small machine is idle when it has started. -/
lemma exists_idle_start : ∃ pp pp' prest k, Idle pp (pp' :: prest) k ∧ k.mkenvidI = 0#32 ∧
    (smallMachine false).Boots k := by
  obtain ⟨T, k, hboots, -, -, hpop⟩ := exists_booted false
  have hroom := hpop.room
  have hK := hpop.kInv
  have hsmall := smallMachine_room false (c := 0) (by decide)
  obtain ⟨pp, pp', prest, hf⟩ : ∃ pp pp' prest, k.pm.pageFreeList = pp :: pp' :: prest := by
    rcases hf : k.pm.pageFreeList with - | ⟨pp, - | ⟨pp', prest⟩⟩
    · rw [hf, List.length_nil] at hroom
      omega
    · rw [hf, List.length_singleton] at hroom
      omega
    · exact ⟨pp, pp', prest, rfl⟩
  obtain ⟨hpool, -, -, hzero⟩ := hK.pages.fresh hf
  refine ⟨pp, pp', prest, k, ⟨?_, hf, hzero, ?_, ?_, ?_, ?_, hpop.sched⟩, hpop.mkenvid, hboots⟩
  · rw [hpop.free, List.range_eq_range', Nat.sub_zero]
  · rw [hK.pages.npage_eq]
    exact T.lt_npage pp hpool
  · rw [hK.pages.npage_eq]
    exact T.npage_le
  · rw [hK.base_eq]
    exact fun hc => T.base_notMem (hc ▸ hpool)
  · simp [hpop.asid]

/-- After any number of rounds. -/
lemma exists_idle : ∀ n : ℕ, ∃ pp prest k hist, Idle pp prest k ∧
    k.mkenvidI = BitVec.ofNat 32 n ∧
    TableReaches (smallMachine false) (fun _ ev => ev ≠ .other) (k, hist)
  | 0 => by
      obtain ⟨pp, pp', prest, k, hidle, hcount, hboots⟩ := exists_idle_start
      exact ⟨pp, pp' :: prest, k, .start, hidle, hcount, .init ⟨hboots, rfl⟩⟩
  | n + 1 => by
      obtain ⟨pp, prest, k, hist, hidle, hcount, hr⟩ := exists_idle n
      obtain ⟨k', hidle', hcount', hr'⟩ := hidle.round (fun _ _ hne _ => hne) hr
      refine ⟨pp, prest, k', _, hidle', ?_, hr'⟩
      rw [hcount', hcount]
      exact (BitVec.ofNat_add n 1).symm

/-- An env is created and freed, its slot is taken again, and a second env is allocated. -/
lemma exists_second {C : Kernel × History → TableEvent → Prop}
    (hC : ∀ x ev, ev ≠ .other → x.1.mkenvidI.toNat < 3 → C x ev) :
    ∃ k, TableReaches (smallMachine false) C (k, ⟨[(6145#32, 1), (4096#32, 0)],
      [(6145#32, 1), (4096#32, 0), (2048#32, 0)]⟩) := by
  obtain ⟨pp, pp', prest, k, hidle, hcount, hboots⟩ := exists_idle_start
  obtain ⟨k₁, hidle₁, hcount₁, hr₁⟩ := hidle.round (C := C)
    (fun x ev hne hor => hC x ev hne (by rcases hor with h | h <;> rw [h, hcount] <;> decide))
    (.init ⟨hboots, rfl⟩)
  obtain ⟨k₂, id, rfl, hr₂⟩ := hidle₁.second
    (fun x ev hne hor =>
      hC x ev hne (by rcases hor with h | h <;> rw [h, hcount₁, hcount] <;> decide))
    rfl hr₁
  have hid : k.nextId 0 = 2048#32 := by
    rw [Kernel.nextId, hcount]
    decide
  have hid₁ : k₁.nextId 0 = 4096#32 := by
    rw [Kernel.nextId, hcount₁, hcount]
    decide
  rw [hid, hid₁, hcount₁, hcount] at hr₂
  exact ⟨k₂, hr₂⟩

section

variable {mc : Machine} {C : Kernel × History → TableEvent → Prop} {x x' : Kernel × History}
  {k : Kernel}

/-- The ASIDs belong to the live envs. -/
structure AsidsOwned (k : Kernel) (live : List ℕ) : Prop where
  bit : ∀ i < NASID, asidUsed k.asidBitmap i = true ↔
    ∃! e, e ∈ live ∧ (k.envs e).envAsid = BitVec.ofNat 32 i
  exclusive : ∀ e ∈ live, ∀ e' ∈ live, (k.envs e).envAsid = (k.envs e').envAsid → e = e'
  below : ∀ e ∈ live, (k.envs e).envAsid.toNat < NASID
  /-- `env_alloc` goes without an env only if every ASID is taken. -/
  exhausted : ∀ parentId k', envAlloc parentId k = .exit (.code .noFreeEnv) k' →
    live.Nodup ∧ live.length = NASID

lemma TableInv.asidsOwned {live : List ℕ} (h : TableInv k live) : AsidsOwned k live := by
  refine ⟨fun i hi => ?_, h.asid_inj, h.asid_lt, fun parentId k' hexit => ⟨h.live_nodup, ?_⟩⟩
  · have hNASID : NASID = 64 := rfl
    have heq : ∀ w : Word, w.toNat = i ↔ w = BitVec.ofNat 32 i := by
      intro w
      rw [← BitVec.toNat_inj, BitVec.toNat_ofNat, Nat.mod_eq_of_lt (by omega)]
    rw [h.used i hi]
    simp only [heq]
    constructor
    · rintro ⟨e, he, hasid⟩
      exact ⟨e, ⟨he, hasid⟩, fun e' he' => h.asid_inj e' he'.1 e he (he'.2.trans hasid.symm)⟩
    · rintro ⟨e, he, -⟩
      exact ⟨e, he⟩
  · rcases envAlloc_exit hexit with ⟨-, hnil⟩ | ⟨e, rest, pp, prest, -, -, hnone, -⟩
    · obtain ⟨front, hfront⟩ := h.last
      rw [hnil rfl] at hfront
      exact absurd hfront (by simp)
    · exact h.length_eq hnone

/-- **ASIDs are exclusively owned**, after any sequence of allocations and releases of envs. -/
theorem asids_exclusively_owned (h : TableReaches mc C x) : AsidsOwned x.1 x.2.slots :=
  h.tableInv.asidsOwned

/-- … for one, where a slot has been taken again and two envs are live. -/
theorem asids_exclusively_owned_second : ∃ x,
    TableReaches (smallMachine false) (fun _ ev => ev ≠ .other) x ∧ x.2.slots = [1, 0] ∧
      AsidsOwned x.1 x.2.slots := by
  obtain ⟨k, hr⟩ := exists_second (C := fun _ ev => ev ≠ .other) fun _ _ hne _ => hne
  exact ⟨_, hr, rfl, asids_exclusively_owned hr⟩

end

/-! ## The free list -/

/-- `env_free_list` is what it should be. -/
structure FreeListOk (k : Kernel) : Prop where
  /-- Its elements are elements of `envs[]`. -/
  inArray : ∀ e ∈ k.envFreeList, e < NENV
  nodup : k.envFreeList.Nodup
  free_iff : ∀ e < NENV, e ∈ k.envFreeList ↔ (k.envs e).envStatus = .free

/-- **`env_init` puts `envs[NENV]` on the list, and there it stays.**  For the slots of the array
the list is right: it has them in order at first, no slot twice ever, and exactly those that are not
live. -/
theorem env_free_list_leaves_array (mc : Machine) :
    (∀ k, mc.Boots k → k.envFreeList = List.range NENV ++ [NENV]) ∧
      ∀ C x, TableReaches mc C x → ¬ FreeListOk x.1 ∧ NENV ∈ x.1.envFreeList ∧
        x.1.envFreeList.Nodup ∧ ∀ e < NENV,
          (e ∈ x.1.envFreeList ↔ e ∉ x.2.slots) ∧
          (e ∈ x.1.envFreeList → (x.1.envs e).envStatus = .free) := by
  constructor
  · intro k hboots
    obtain ⟨dev, T, -, -, hb⟩ := hboots.booted false false nofun
    rw [hb.populated.free, Nat.sub_zero, ← List.range_eq_range', List.range_succ]
  · intro C x hr
    have h := hr.tableInv
    obtain ⟨front, hfront⟩ := h.last
    have hmem : NENV ∈ x.1.envFreeList := by simp [hfront]
    refine ⟨fun hok => lt_irrefl NENV (hok.inArray NENV hmem), hmem,
      (List.nodup_append.mp h.nodup).2.1, fun e he =>
        ⟨⟨fun hf hl => h.not_free hl hf, fun hl => ?_⟩,
        h.status_free e⟩⟩
    have hall := h.perm.mem_iff.mpr (List.mem_range.mpr (Nat.lt_succ_of_lt he))
    exact (List.mem_append.mp hall).resolve_left hl

theorem env_free_list_leaves_array_small :
    (∃ k, (smallMachine false).Boots k ∧ k.envFreeList = List.range NENV ++ [NENV]) ∧
      ∃ x, TableReaches (smallMachine false) (fun _ ev => ev ≠ .other) x ∧ x.2.slots = [0] ∧
        ¬ FreeListOk x.1 := by
  obtain ⟨pp, pp', prest, k, hidle, -, hboots⟩ := exists_idle_start
  have hr : TableReaches (smallMachine false) (fun _ ev => ev ≠ .other) (k, .start) :=
    .init ⟨hboots, rfl⟩
  have hr' := hr.step (e := .alloc 0#32) ⟨nofun, .alloc hidle.alloc⟩
  exact ⟨⟨k, hboots, (env_free_list_leaves_array _).1 k hboots⟩, _, hr', rfl,
    ((env_free_list_leaves_array _).2 _ _ hr').1⟩

/-- The list that `env_init` leaves on a small machine has one slot too many. -/
theorem env_init_overruns_envs : ∃ k, (smallMachine false).Boots k ∧ ¬ FreeListOk k ∧
    k.envFreeList ≠ List.range NENV := by
  obtain ⟨T, k, hboots, -, -, hpop⟩ := exists_booted false
  have hfree := hpop.free
  rw [Nat.sub_zero, ← List.range_eq_range', List.range_succ] at hfree
  refine ⟨k, hboots, fun hok => lt_irrefl NENV (hok.inArray NENV (by simp [hfree])), fun hc => ?_⟩
  have hlen := congrArg List.length (hfree.symm.trans hc)
  simp at hlen

/-! ## Ids -/

/-- No `env_alloc` that gets as far as `mkenvid` finds the counter at `2 ^ 20 - 1`. -/
def FreshId (x : Kernel × History) : TableEvent → Prop
  | .alloc _ => x.1.envFreeList ≠ [] → x.1.pm.pageFreeList ≠ [] → x.1.mkenvidI.toNat + 1 < 2 ^ 20
  | _ => True

/-- What ids are for. -/
structure IdsOk (x : Kernel × History) : Prop where
  positive : ∀ i ∈ x.2.ids, i.1 ≠ 0#32 ∧ 0 < i.1.toInt
  distinct : (x.2.ids.map Prod.fst).Nodup
  /-- The id of a live env, which has been given a status, is that env's … -/
  resolves : ∀ i ∈ x.2.live, (x.1.envs i.2).envStatus ≠ .free →
    envid2env i.1 false x.1 = .ok i.2 x.1 ∧ ∀ e k', envid2env i.1 true x.1 = .ok e k' → e = i.2
  /-- … and the id of an env that has been freed is no env's. -/
  gone : ∀ i ∈ x.2.ids, i ∉ x.2.live → ∀ checkperm,
    envid2env i.1 checkperm x.1 = .exit (.code .badEnv) x.1

/-- **The invariant of the ids**: an id shows which call of `mkenvid` made it, and for which slot.
-/
structure IdsInv (k : Kernel) (h : History) : Prop where
  counter_lt : k.mkenvidI.toNat < 2 ^ 20
  made : ∀ i ∈ h.ids, i.2 < NENV ∧ ∃ n, 0 < n ∧ n ≤ k.mkenvidI.toNat ∧ i.1.toNat = n * 2048 + i.2
  distinct : (h.ids.map Prod.fst).Nodup
  live_sub : ∀ i ∈ h.live, i ∈ h.ids
  live_id : ∀ i ∈ h.live, (k.envs i.2).envId = i.1

lemma nextId_toNat {k : Kernel} {e : ℕ} (he : e < NENV) (hlt : k.mkenvidI.toNat + 1 < 2 ^ 20) :
    (k.nextId e).toNat = (k.mkenvidI.toNat + 1) * 2048 + e := by
  have hNENV : NENV = 1024 := rfl
  have hadd : (k.mkenvidI + 1#32).toNat = k.mkenvidI.toNat + 1 := by
    rw [BitVec.toNat_add, BitVec.toNat_ofNat]
    omega
  rw [Kernel.nextId, BitVec.toNat_or, BitVec.toNat_shiftLeft, hadd, BitVec.toNat_ofNat,
    Nat.mod_eq_of_lt (by omega : e < 2 ^ 32), LOG2NENV, Nat.mod_eq_of_lt,
      ← Nat.shiftLeft_add_eq_or_of_lt,
    Nat.shiftLeft_eq]
  · omega
  · rw [Nat.shiftLeft_eq]
    omega

lemma ENVX_toNat {id : Word} {n e : ℕ} (he : e < NENV) (h : id.toNat = n * 2048 + e) :
    ENVX id = e := by
  have hNENV : NENV = 1024 := rfl
  rw [ENVX, BitVec.toNat_and, h, show (0x3FF#32).toNat = 2 ^ 10 - 1 by decide,
    Nat.and_two_pow_sub_one_eq_mod]
  omega

/-- `envid2env` on the id of an env. -/
lemma envid2env_live {k : Kernel} {id : Word} {e : ℕ} (h0 : id ≠ 0#32) (he : ENVX id = e)
    (hlive : (k.envs e).envStatus ≠ .free) (hid : (k.envs e).envId = id) :
    envid2env id false k = .ok e k := by
  subst he
  have hwp : wp (envid2env id false) k (fun e k' => e = ENVX id ∧ k' = k) (fun _ _ => False)
      fun _ => False := by
    rw [envid2env, wp_bind, wp_get, if_neg h0, if_neg (not_or.mpr ⟨hlive, not_not.mpr hid⟩),
      if_neg (by decide), wp_pure]
    exact ⟨rfl, rfl⟩
  obtain ⟨e, k', hrun, rfl, rfl⟩ := hwp.exists_ok
  exact hrun

/-- … and on an id that no env has. -/
lemma envid2env_gone {k : Kernel} {id : Word} {e : ℕ} (h0 : id ≠ 0#32) (he : ENVX id = e)
    (hgone : (k.envs e).envStatus = .free ∨ (k.envs e).envId ≠ id) (checkperm : Bool) :
    envid2env id checkperm k = .exit (.code .badEnv) k := by
  subst he
  have hwp : wp (envid2env id checkperm) k (fun _ _ => False)
      (fun x k' => x = .code .badEnv ∧ k' = k) fun _ => False := by
    rw [envid2env, wp_bind, wp_get, if_neg h0, if_pos hgone, wp_exit]
    exact ⟨rfl, rfl⟩
  obtain ⟨x, k', hrun, rfl, rfl⟩ := hwp.exists_exit
  exact hrun

namespace IdsInv

variable {k : Kernel} {x x' : Kernel × History} {h₀ : History} {ev : TableEvent}

lemma start {mc : Machine} (hboots : mc.Boots k) : IdsInv k .start := by
  obtain ⟨dev, T, -, -, hb⟩ := hboots.booted false false nofun
  refine ⟨?_, nofun, .nil, nofun, nofun⟩
  rw [hb.populated.mkenvid]
  decide

/-- Another id: it is larger than all before. -/
lemma alloc (h : IdsInv k h₀) {e : ℕ} (he : e < NENV) (hlt : k.mkenvidI.toNat + 1 < 2 ^ 20)
    {k' : Kernel} (hcount : k'.mkenvidI = k.mkenvidI + 1#32)
    (hid : ∀ e', (k'.envs e').envId = if e' = e then k.nextId e else (k.envs e').envId)
    (hnot : e ∉ h₀.slots) : IdsInv k' (h₀.alloc (k.nextId e) e) := by
  have hNENV : NENV = 1024 := rfl
  have hadd : k'.mkenvidI.toNat = k.mkenvidI.toNat + 1 := by
    rw [hcount, BitVec.toNat_add, BitVec.toNat_ofNat]
    omega
  have hnew := nextId_toNat he hlt
  refine ⟨by omega, ?_, ?_, ?_, ?_⟩
  · rintro i (_ | ⟨_, hi⟩)
    · exact ⟨he, k.mkenvidI.toNat + 1, Nat.succ_pos _, hadd.ge, hnew⟩
    · obtain ⟨hslot, n, hpos, hle, hval⟩ := h.made i hi
      exact ⟨hslot, n, hpos, by omega, hval⟩
  · refine List.nodup_cons.mpr ⟨fun hmem => ?_, h.distinct⟩
    obtain ⟨i, hi, heq⟩ := List.mem_map.mp hmem
    obtain ⟨hslot, n, -, hle, hval⟩ := h.made i hi
    rw [heq, hnew] at hval
    omega
  · rintro i (_ | ⟨_, hi⟩)
    · exact List.mem_cons_self
    · exact List.mem_cons_of_mem _ (h.live_sub i hi)
  · rintro i (_ | ⟨_, hi⟩)
    · rw [hid, if_pos rfl]
    · have hne : i.2 ≠ e := fun hc => hnot (hc ▸ List.mem_map_of_mem hi)
      rw [hid, if_neg hne, h.live_id i hi]

/-- The counter is the same, or one more, and no live env gets another id. -/
lemma keep (h : IdsInv k h₀) {k' : Kernel} {h₁ : History}
    (hle : k.mkenvidI.toNat ≤ k'.mkenvidI.toNat) (hlt : k'.mkenvidI.toNat < 2 ^ 20)
    (hids : h₁.ids = h₀.ids) (hlive : ∀ i ∈ h₁.live, i ∈ h₀.live)
    (hid : ∀ i ∈ h₁.live, (k'.envs i.2).envId = (k.envs i.2).envId) : IdsInv k' h₁ := by
  refine ⟨hlt, ?_, hids ▸ h.distinct, fun i hi => hids ▸ h.live_sub i (hlive i hi), fun i hi => ?_⟩
  · intro i hi
    obtain ⟨hslot, n, hpos, hn, hval⟩ := h.made i (hids ▸ hi)
    exact ⟨hslot, n, hpos, hn.trans hle, hval⟩
  · rw [hid i hi, h.live_id i (hlive i hi)]

/-- **Every step keeps the invariant**, as long as the counter is small. -/
lemma step (h : IdsInv x.1 x.2) (ht : TableInv x.1 x.2.slots) (hs : TableStep x ev x')
    (hC : FreshId x ev) : IdsInv x'.1 x'.2 := by
  have hslot : ∀ i ∈ x.2.live, i.2 ∈ x.2.slots := fun i hi => List.mem_map_of_mem hi
  cases hs.change ht with
  | @alloc parentId e pp i rest prest hl hf hi =>
      have hlt := hC (by simp [hl]) (by simp [hf])
      refine h.alloc (ht.head_lt hl).1 hlt rfl (fun e' => ?_) fun he =>
        ht.not_free he (by simp [hl])
      by_cases hee : e' = e <;> simp [Kernel.allocated, hee]
  | @allocFailed parentId e pp rest prest hl hf =>
      have hlt := hC (by simp [hl]) (by simp [hf])
      have hadd : (x.1.mkenvidI + 1#32).toNat = x.1.mkenvidI.toNat + 1 := by
        rw [BitVec.toNat_add, BitVec.toNat_ofNat]
        omega
      refine h.keep (hadd ▸ Nat.le_succ _)
        (hadd.trans_lt hlt) rfl (fun _ hi => hi) fun i hi => ?_
      have hne : i.2 ≠ e := fun hc => ht.not_free (hslot i hi) (by simp [hl, hc])
      simp [Kernel.prepared, hne]
  | @free e m q he =>
      refine h.keep le_rfl h.counter_lt rfl
        (fun i hi => (List.mem_filter.mp hi).1) fun i _ => ?_
      by_cases hee : i.2 = e <;> simp [Kernel.freed, hee]
  | same hsame =>
      exact h.keep (hsame.mkenvidI ▸ le_rfl) (hsame.mkenvidI ▸ h.counter_lt) rfl (fun _ hi => hi)
        fun i _ => hsame.envId i.2

lemma idsOk (h : IdsInv x.1 x.2) (ht : TableInv x.1 x.2.slots) : IdsOk x := by
  have hNENV : NENV = 1024 := rfl
  have hnum : ∀ i ∈ x.2.ids, i.1 ≠ 0#32 ∧ 0 < i.1.toInt ∧ ENVX i.1 = i.2 := by
    intro i hi
    obtain ⟨hslot, n, hpos, hle, hval⟩ := h.made i hi
    have hlt := h.counter_lt
    have hne : i.1 ≠ 0#32 := by
      intro hc
      rw [hc] at hval
      simp at hval
      omega
    refine ⟨hne, ?_, ENVX_toNat hslot hval⟩
    rw [BitVec.toInt_eq_toNat_of_lt (by omega)]
    omega
  refine ⟨fun i hi => ⟨(hnum i hi).1, (hnum i hi).2.1⟩, h.distinct, ?_, ?_⟩
  · intro i hi hlive
    obtain ⟨hne, -, henvx⟩ := hnum i (h.live_sub i hi)
    have hid := h.live_id i hi
    refine ⟨envid2env_live hne henvx hlive hid, fun e k' hrun => ?_⟩
    cases ((wp_envid2env_resolves x.1 i.1 true).of_ok hrun).2 with
    | self h0 => exact absurd h0 hne
    | other => exact henvx
  · intro i hi hgone checkperm
    obtain ⟨hne, -, henvx⟩ := hnum i hi
    refine envid2env_gone hne henvx ?_ checkperm
    by_cases hslot : i.2 ∈ x.2.slots
    · -- the slot has been given to another env, with another id
      obtain ⟨j, hj, hji⟩ := List.mem_map.mp hslot
      refine .inr fun hid => hgone ?_
      have heq : j.1 = i.1 := by rw [← h.live_id j hj, hji, hid]
      rwa [← Prod.ext heq hji]
    · have hlt := List.mem_range.mpr (Nat.lt_succ_of_lt (h.made i hi).1)
      exact .inl (ht.status_free i.2
        ((List.mem_append.mp (ht.perm.mem_iff.mpr hlt)).resolve_left hslot))

end IdsInv

/-- **Ids are never reused or mistaken**, in a run in which the counter of `mkenvid` stays below
`2 ^ 20`. -/
theorem ids_never_reused {mc : Machine} {x : Kernel × History} (h : TableReaches mc FreshId x) :
    IdsOk x := by
  have hinv : IdsInv x.1 x.2 := by
    refine Reachable.invariant_of (I := fun x => IdsInv x.1 x.2)
      (J := fun x => TableInv x.1 x.2.slots) h
      (fun _ hr => TableReaches.tableInv hr) ?_ ?_
    · rintro ⟨k, hist⟩ ⟨hboots, rfl⟩ -
      exact .start hboots
    · exact fun x ev x' ht _ hinv hs => hinv.step ht hs.2 hs.1
  exact hinv.idsOk h.tableInv

/-- The slot that has been taken again has another id, and so has the second env. -/
theorem ids_never_reused_second : ∃ x, TableReaches (smallMachine false) FreshId x ∧
    x.2.ids = [(6145#32, 1), (4096#32, 0), (2048#32, 0)] ∧ IdsOk x := by
  have hfresh : ∀ x ev, ev ≠ TableEvent.other → x.1.mkenvidI.toNat < 3 → FreshId x ev := by
    intro x ev _ hlt
    cases ev with
    | alloc parentId => exact fun _ _ => by omega
    | enter e | free e | other => trivial
  obtain ⟨k, hr⟩ := exists_second hfresh
  exact ⟨_, hr, rfl, ids_never_reused hr⟩

/-- **The counter overflows into the sign bit**: after `2 ^ 20 - 1` envs, one at a time, the next
one has an id that reads as an error code. -/
theorem ids_overflow : ∃ x, TableReaches (smallMachine false) (fun _ ev => ev ≠ .other) x ∧
    ¬ IdsOk x := by
  obtain ⟨pp, prest, k, hist, hidle, hcount, hr⟩ := exists_idle (2 ^ 20 - 1)
  have hid : ((k.first pp prest).envs 0).envId = k.nextId 0 := allocated_envId
  refine ⟨_, hr.step (e := .alloc 0#32) ⟨nofun, .alloc hidle.alloc⟩, fun hok => ?_⟩
  have hpos := (hok.positive _ (List.mem_cons_self)).2
  rw [hid, Kernel.nextId, hcount] at hpos
  revert hpos
  decide

/-! ## The slots in a run of the whole machine

The events of the machine keep the table as well: a call that destroys an env destroys a live one.
-/

namespace TableInv

variable {k k' : Kernel} {live : List ℕ} {e : ℕ} {call : Syscall} {r : Except Exit Word}
  {tf : Trapframe} {gone : Bool} {ev : Event}

lemma mem_of_live (h : TableInv k live) (hinv : EnvInv k) (he : (k.envs e).envStatus ≠ .free) :
    e ∈ live := by
  have hmem := h.perm.mem_iff.mpr (List.mem_range.mpr (Nat.lt_succ_of_le (hinv.live_id e he).1))
  exact (List.mem_append.mp hmem).resolve_right fun hf => he (h.status_free e hf)

lemma like (h : TableInv k live) (hk : k.Like k') : TableInv k' live := by
  obtain ⟨m, dev, rfl⟩ := hk
  exact h.congr rfl rfl (fun _ _ => rfl) fun _ _ => rfl

lemma setKtf (h : TableInv k live) (tf : Trapframe) : TableInv { k with ktf := tf } live :=
  h.congr rfl rfl (fun _ _ => rfl) fun _ _ => rfl

/-- A live env changes, and keeps its ASID. -/
lemma update (h : TableInv k live) (he : e ∈ live) {v : Env}
    (henvs : k'.envs = Function.update k.envs e v) (hv : v.envAsid = (k.envs e).envAsid)
    (hl : k'.envFreeList = k.envFreeList)
    (hb : k'.asidBitmap = k.asidBitmap) : TableInv k' live := by
  refine h.congr hl hb (fun e' _ => ?_) fun e' he' => ?_
  · by_cases hee : e' = e
    · rw [henvs, hee, Function.update_self, hv]
    · rw [henvs, Function.update_of_ne hee]
  · have hee : e' ≠ e := fun heq => h.not_free he (heq ▸ he')
    rw [henvs, Function.update_of_ne hee]

lemma switched (h : TableInv k live) (hs : k.Switched k') : TableInv k' live :=
  h.congr hs.envFreeList hs.asidBitmap (fun e _ => (hs.envs e).envAsid)
    fun e _ => (hs.envs e).envStatus

/-- The env that was taken is given its status. -/
lemma born (h : TableInv k live) {rest prest : List ℕ} {pp i : ℕ} {parentId : Word} {v : Env}
    (hl : k.envFreeList = e :: rest)
    (hi : ((List.range NASID).find? fun i => !asidUsed k.asidBitmap i) = some i)
    (hv : v.envAsid = BitVec.ofNat 32 i)
    (henvs : k'.envs = Function.update (k.allocated e rest pp prest parentId i).envs e v)
    (hl' : k'.envFreeList = rest)
    (hb : k'.asidBitmap = (k.allocated e rest pp prest parentId i).asidBitmap) :
    TableInv k' (e :: live) := by
  refine (h.allocated hl hi).update List.mem_cons_self henvs ?_ hl' hb
  simp [hv, Kernel.allocated]

/-- **Every system call keeps the table.** -/
lemma syscall (h : TableInv k live) (hinv : EnvInv k) (ha : Syscall.Acts k call r k') :
    ∃ live', TableInv k' live' := by
  have hmem : ∀ {envid checkperm e}, k.Resolves envid checkperm e → e ∈ live := fun he =>
    h.mem_of_live hinv (hinv.live_of_resolves he)
  cases ha with
  | plain _ hk => exact ⟨live, h.like hk⟩
  | failed _ hk => exact ⟨live, h.like hk⟩
  | yield hs => exact ⟨live, h.switched hs.switched⟩
  | @destroy envid e m q he => exact ⟨_, h.freed (hmem he) m q⟩
  | @destroySelf envid e m q k' he _ _ hs =>
      have h' : TableInv { k.freed e m q with curenv := none } (live.filter (· ≠ e)) :=
        (h.freed (hmem he) m q).congr rfl rfl (fun _ _ => rfl) fun _ _ => rfl
      exact ⟨_, h'.switched hs.switched⟩
  | setTlbModEntry he => exact ⟨live, h.update (hmem he) rfl rfl rfl rfl⟩
  | notForked _ hfree => exact ⟨live, h.prepared hfree⟩
  | @forked c e pp i rest prest hcur hfree _ hasid =>
      exact ⟨_, h.born hfree hasid (by simp [Kernel.allocated]) rfl rfl rfl⟩
  | wake he => exact ⟨live, h.update (hmem he) rfl rfl rfl rfl⟩
  | block he => exact ⟨live, h.update (hmem he) rfl rfl rfl rfl⟩
  | sameStatus => exact ⟨live, h⟩
  | setTrapframeSelf _ _ _ hk => exact ⟨live, (h.like hk).setKtf _⟩
  | setTrapframe he _ _ hk =>
      obtain ⟨m, dev, rfl⟩ := hk
      exact ⟨live, h.update (hmem he) rfl rfl rfl rfl⟩
  | sent he _ _ _ hk =>
      obtain ⟨m, dev, rfl⟩ := hk
      exact ⟨live, h.update (hmem he) rfl rfl rfl rfl⟩
  | sentLate _ _ _ he _ _ _ hk =>
      obtain ⟨m, dev, rfl⟩ := hk
      exact ⟨live, h.update (hmem he) rfl rfl rfl rfl⟩
  | @received dstva c q k' _ hcur _ hs =>
      have h' : TableInv (k.receiving c dstva q) live :=
        h.update (h.mem_of_live hinv (hinv.cur_live c hcur)) rfl rfl rfl rfl
      exact ⟨live, h'.switched hs.switched⟩

lemma trap (h : TableInv k live) (hinv : EnvInv k) (ha : tf.Acts k gone k') :
    ∃ live', TableInv k' live' := by
  cases ha with
  | tick _ hs => exact ⟨live, (h.setKtf tf).switched hs.switched⟩
  | noCall => exact ⟨live, h.setKtf _⟩
  | call _ hs =>
      obtain ⟨live', h'⟩ := (h.setKtf _).syscall (hinv.setKtf _) hs
      exact ⟨live', h'.setKtf _⟩
  | callFailed _ hs =>
      obtain ⟨live', h'⟩ := (h.setKtf _).syscall (hinv.setKtf _) hs
      exact ⟨live', h'.setKtf _⟩
  | callGone _ hs => exact (h.setKtf _).syscall (hinv.setKtf _) hs
  | fault _ hk => exact ⟨live, (h.setKtf tf).like hk⟩
  | queryVpt _ _ _ _ _ hk => exact ⟨live, ((h.setKtf _).like hk).setKtf _⟩
  | userMod _ hk => exact ⟨live, ((h.setKtf _).like hk).setKtf _⟩

lemma event (h : TableInv k live) (hinv : EnvInv k) (ha : ev.Acts k k') :
    ∃ live', TableInv k' live' := by
  cases ha with
  | @create img priority e pp i rest prest q k' _ hfree _ hasid _ hk =>
      obtain ⟨m, dev, rfl⟩ := hk
      have henvs : (k.created e rest pp prest i priority img.eEntry m q).envs = Function.update
          (k.allocated e rest pp prest 0#32 i).envs e
          ((k.created e rest pp prest i priority img.eEntry m q).envs e) := by
        simp [Kernel.created, Kernel.newborn, Kernel.allocated]
      refine ⟨_, h.born hfree hasid ?_ henvs rfl rfl⟩
      simp [Kernel.created, Kernel.newborn]
  | trap _ ha => exact h.trap hinv ha
  | store _ hk => exact ⟨live, h.like hk⟩

end TableInv

/-- **The slot that `env_alloc` takes next is one of the array**, in every run of any events. -/
lemma Reaches.head_lt {mc : Machine} {C : Kernel → Event → Prop} {k : Kernel} (h : Reaches mc C k)
    {e : ℕ} {rest : List ℕ} (hl : k.envFreeList = e :: rest) : e < NENV := by
  have htable : ∃ live, TableInv k live := by
    refine Reachable.invariant_of (I := fun k => ∃ live, TableInv k live) (J := EnvInv) h
      (fun _ hr => Reaches.envInv hr) (fun _ hb _ => ⟨[], .boots hb⟩) ?_
    rintro k ev k' hinv - ⟨live, ht⟩ hs
    exact ht.event hinv hs.2.acts
  obtain ⟨live, ht⟩ := htable
  exact (ht.head_lt hl).1

end MosRv
