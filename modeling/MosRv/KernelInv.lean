import MosRv.Boot
import MosRv.PageRelease

/-!
# The kernel invariant

`KInv T k` is `Pages` for the page directories of the live envs, with the little that ties it to
the rest of the kernel state: `curenv` is live and `cur_pgdir` is its directory, what is on
`env_free_list` is free, and `env_ipc_dstva` is an address below `UTOP`.

Every function of the kernel keeps it (`wp_trap_kInv` at the end), as long as the permissions user
code passes fit the page they go with and no reference count is about to wrap: the mapping calls
are the only ones that need either.  On the way no function fails one of the two assertions about
`pp_ref` (`Panic.NotRef`).
-/

namespace MosRv

open RefGraph

/-- The page directories of the live envs. -/
def Kernel.dirs (k : Kernel) (e : ℕ) : Option ℕ :=
  if (k.envs e).envStatus = .free then none else some (k.envs e).envPgdir

/-- **The kernel invariant.** -/
structure KInv (T : Template) (k : Kernel) : Prop where
  pages : Pages T (NENV + 1) k.dirs k.pm
  base_eq : k.basePgdir = T.base
  cur : ∀ e, k.curenv = some e → ∃ d, k.dirs e = some d ∧ k.curPgdir = some d
  free_nodup : k.envFreeList.Nodup
  free_free : ∀ e ∈ k.envFreeList, (k.envs e).envStatus = .free ∧ e ≤ NENV
  dstva : ∀ e, (k.envs e).envIpcDstva < UTOP

/-- The panic is not one of the assertions about `pp_ref`. -/
def Panic.NotRef (p : Panic) : Prop := p ≠ .assertRefPos ∧ p ≠ .assertRefZero

instance (p : Panic) : Decidable p.NotRef := inferInstanceAs (Decidable (_ ∧ _))

section

variable {T : Template} {n : ℕ} {dirs : ℕ → Option ℕ} {m m' : Pmap} {k k' : Kernel}
  {e d pp : ℕ} {va perm : Word}

/-! ## The functions on pages -/

namespace Pages

/-- `page_insert` of a page of the pool succeeds in one of four ways, or wants a page table. -/
lemma wp_pageInsert_cases (asid perm : Word) (h : Pages T n dirs m) (he : dirs e = some d)
    (hva : va < ULIM) (ho : T.own (PDX va) = true) (hpool : pp ∈ T.pool) :
    Prog.wp (pageInsert d asid pp va perm) m (fun _ m' => InsertCase m d pp va perm m')
      (fun e m' => e = .code .noMem ∧ m' = m ∧ m.pageFreeList = []) (fun _ => False) := by
  refine (pageInsert_cases asid perm hva (T.lt_max hpool) h.free_lt
    (h.wellFormed.not_tableAt_self he ho)).mono (fun _ _ hcase => hcase) ?_ ?_
  · exact fun e m' hexit => ⟨hexit.1, hexit.2.1, hexit.2.2.1⟩
  · rintro p ⟨t, ht, hv, hp⟩
    have htgt : target T.own dirs m (.pte e (PDX va) (PTX va)) = some
        (pteFrame (m.mem t (PTX va))) :=
      target_pte_eq_some.mpr ⟨t, (tableAt_iff ho he).mp ht, PTX_lt va, hv, rfl⟩
    rcases hp with ⟨-, hp⟩ | ⟨-, hp⟩
    · exact absurd (h.target_lt htgt) (not_lt.mpr hp)
    · exact h.ppRef_ne_zero htgt hp

/-- `page_insert` of a page that is counted exactly. -/
lemma wp_pageInsert (asid : Word) (h : Pages T n dirs m) (he : dirs e = some d) (hva : va < ULIM)
    (ho : T.own (PDX va) = true) (hpool : pp ∈ T.pool) (hfits : Fits perm pp)
    (hfree : pp ∉ m.pageFreeList)
    (hcnt : (m.ppRef pp).toNat = refs (slots n) (target T.own dirs m) pp)
    (hlt : (m.ppRef pp).toNat < 65535) (hexcl : ∀ s, s.Excl → target T.own dirs m s ≠ some pp)
    (hown : PDX va = PDX UVPT → ∀ s, target T.own dirs m s ≠ some pp) :
    Prog.wp (pageInsert d asid pp va perm) m
      (fun _ m' => InsertCase m d pp va perm m' ∧ Pages T n dirs m')
      (fun e m' => e = .code .noMem ∧ m' = m ∧ m.pageFreeList = []) (fun _ => False) := by
  refine (h.wp_pageInsert_cases asid perm he hva ho hpool).mono ?_ (fun _ _ hexit => hexit)
    fun _ hp => hp
  exact fun _ m' hcase => ⟨hcase, h.insert he ho hpool hfits hfree hcnt hlt hexcl hown hcase⟩

/-- Taking a page changes no slot. -/
lemma target_take {rest : List ℕ} (h : Pages T n dirs m) (hf : m.pageFreeList = pp :: rest) :
    target T.own dirs (m.take pp rest) = target T.own dirs m := by
  apply target_congr
  apply slotWord_congr
  rintro f ⟨s, -, hs⟩
  refine Pmap.take_mem_of_ne m rest fun hc => ?_
  exact h.counted.free_unref pp (by simp [hf]) s (hc ▸ hs)

/-- Mapping a page just taken from the free list. -/
lemma insertFresh {rest : List ℕ} (h : Pages T n dirs m) (hf : m.pageFreeList = pp :: rest)
    (he : dirs e = some d) (ho : T.own (PDX va) = true) (hfits : Fits perm pp)
    (hcase : InsertCase (m.take pp rest) d pp va perm m') : Pages T n dirs m' := by
  obtain ⟨hpool, hnot, hunref, hz⟩ := h.fresh hf
  have hz' : ((m.take pp rest).ppRef pp).toNat = 0 := by
    rw [Pmap.take_ppRef, hz]
    rfl
  refine (h.take hf).insert he ho hpool hfits hnot ?_ (by omega) (fun s _ => hunref s)
    (fun _ => hunref) hcase
  rw [hz', refs_eq_zero_iff.mpr fun s _ => hunref s]

/-- `page_insert` of a page just taken from the free list. -/
lemma wp_pageInsert_fresh {rest : List ℕ} (asid : Word) (h : Pages T n dirs m)
    (hf : m.pageFreeList = pp :: rest) (he : dirs e = some d) (hva : va < ULIM)
    (ho : T.own (PDX va) = true) (hfits : Fits perm pp) {m₁ : Pmap}
    (h₁ : Pages T n dirs m₁) (hr : m₁.ppRef = m.ppRef) (hf₁ : m₁.pageFreeList = rest)
    (ht : target T.own dirs m₁ = target T.own dirs m) :
    Prog.wp (pageInsert d asid pp va perm) m₁
      (fun _ m' => InsertCase m₁ d pp va perm m' ∧ Pages T n dirs m')
      (fun e m' => e = .code .noMem ∧ m' = m₁ ∧ rest = []) (fun _ => False) := by
  have hmem : pp ∈ m.pageFreeList := by simp [hf]
  have hunref : ∀ s, target T.own dirs m₁ s ≠ some pp := by
    rw [ht]
    exact h.counted.free_unref pp hmem
  have hz : (m₁.ppRef pp).toNat = 0 := by
    rw [hr]
    exact h.counted.free_cnt pp hmem
  rw [← hf₁]
  refine h₁.wp_pageInsert asid he hva ho (h.counted.free_pool pp hmem) hfits ?_ ?_ (by omega)
    (fun s _ => hunref s) fun _ => hunref
  · rw [hf₁]
    exact (h.fresh hf).2.1
  · rw [hz, refs_eq_zero_iff.mpr fun s _ => hunref s]

lemma wp_pageRemove (asid : Word) (h : Pages T n dirs m) (he : dirs e = some d)
    (ho : T.own (PDX va) = true) :
    Prog.wp (pageRemove d asid va) m
      (fun _ m' => RemoveCase m d va m' ∧ Pages T n dirs m') (fun _ _ => False)
      (fun _ => False) := by
  refine (pageRemove_cases m d asid va).mono (fun _ m' hcase => ⟨hcase, h.remove he ho hcase⟩)
    (fun _ _ hf => hf) ?_
  rintro p ⟨w, hw, hp⟩
  rw [entryAt_eq_slotWord ho he] at hw
  have htgt : target T.own dirs m (.pte e (PDX va) (PTX va)) = some (pteFrame w) := by
    rw [target, hw, Option.map_some]
  rcases hp with ⟨-, hp⟩ | ⟨-, hp⟩
  · exact absurd (h.target_lt htgt) (not_lt.mpr hp)
  · exact h.ppRef_ne_zero htgt hp

/-- `page_lookup` below `UTOP` finds the page a slot names. -/
lemma wp_pageLookup (h : Pages T n dirs m) (he : dirs e = some d) (ho : T.own (PDX va) = true) :
    Prog.wp (pageLookup d va) m
      (fun r m' => m' = m ∧ ∀ pp t j, r = some (pp, t, j) →
        target T.own dirs m (.pte e (PDX va) (PTX va)) = some pp)
      (fun _ _ => False) (fun _ => False) := by
  rw [MosRv.wp_pageLookup]
  cases hw : m.walk d va with
  | none => simp
  | some tj =>
      obtain ⟨t, j⟩ := tj
      obtain ⟨ht, rfl⟩ := Pmap.walk_eq_some.mp hw
      refine ⟨fun _ => by simp, fun hv => ?_⟩
      have htgt : target T.own dirs m (.pte e (PDX va) (PTX va)) =
          some (pteFrame (m.mem t (PTX va))) :=
        target_pte_eq_some.mpr ⟨t, (tableAt_iff ho he).mp ht, PTX_lt va, hv, rfl⟩
      refine ⟨fun hn => absurd (h.target_lt htgt) (not_lt.mpr hn), fun _ => ⟨rfl, ?_⟩⟩
      rintro pp' t' j' heq
      simp only [Option.some.injEq, Prod.mk.injEq] at heq
      rw [htgt, heq.1]

end Pages

/-- A demand fault at `va` may be served. -/
def Template.Serves (T : Template) (va : Word) : Prop :=
  T.gap = true ∨ ¬ (UVPT ≤ va ∧ va < ULIM)

lemma Template.serves_of_lt_UTOP (T : Template) (h : va < UTOP) : T.Serves va := by
  right
  rw [BitVec.le_def, show UVPT.toNat = 0x7fc00000 by decide]
  rw [BitVec.lt_def, show UTOP.toNat = 0x7f400000 by decide] at h
  omega

/-- The address ranges `passive_alloc` lets through are owned by the env. -/
lemma own_of_gap (hs : T.Serves va) (h₁ : ¬ (UENVS ≤ va ∧ va < UPAGES))
    (h₂ : ¬ (UPAGES ≤ va ∧ va < UVPT))
    (h₃ : ¬ ULIM ≤ va) : T.own (PDX va) = true := by
  rw [BitVec.le_def, BitVec.lt_def, show UENVS.toNat = 0x7f400000 by decide,
    show UPAGES.toNat = 0x7f800000 by decide] at h₁
  rw [BitVec.le_def, BitVec.lt_def, show UPAGES.toNat = 0x7f800000 by decide,
    show UVPT.toNat = 0x7fc00000 by decide] at h₂
  rw [Template.Serves, BitVec.le_def, BitVec.lt_def, show UVPT.toNat = 0x7fc00000 by decide,
    ULIM_toNat] at hs
  rw [BitVec.le_def, ULIM_toNat] at h₃
  rw [Template.own, decide_eq_true_iff, PDX_UTOP, PDX_UVPT, PDX_eq]
  rcases hs with hs | hs
  · simp only [hs, true_and]
    omega
  · left
    omega

/-- A demand fault that is served maps a fresh page. -/
lemma Pages.wp_passiveAlloc (asid : Word) (h : Pages T n dirs m) (he : dirs e = some d)
    (hs : T.Serves va) :
    Prog.wp (passiveAlloc va d asid) m
      (fun _ m' => Pages T n dirs m' ∧ ∃ pp rest, m.pageFreeList = pp :: rest ∧
        InsertCase (m.take pp rest) d pp va (PTE_W ||| PTE_U) m')
      (fun _ _ => False) Panic.NotRef := by
  simp only [passiveAlloc, Prog.wp_ite, Prog.wp_panic]
  refine ⟨fun _ => by decide, fun _ => ⟨fun _ => by decide, fun _ => ⟨fun _ => by decide,
    fun h₁ => ⟨fun _ => by decide, fun h₂ => ⟨fun _ => by decide, fun h₃ => ?_⟩⟩⟩⟩⟩
  have ho := own_of_gap hs h₁ h₂ h₃
  have hva : va < ULIM := by simpa using h₃
  simp only [Prog.wp_bind, wp_panicOn]
  cases hf : m.pageFreeList with
  | nil =>
      rw [wp_pageAlloc_nil hf]
      exact ⟨by simp, by simp⟩
  | cons pp rest =>
      rw [wp_pageAlloc_cons hf]
      refine (h.wp_pageInsert_fresh asid hf he hva ho (fits_of_lt (by decide) pp)
        (h.take hf) rfl rfl
        (h.target_take hf)).mono ?_ ?_ (fun _ hp => hp.elim)
      · exact fun _ m' hm => ⟨hm.2, pp, rest, rfl, hm.1⟩
      · rintro c m' ⟨rfl, -⟩
        exact ⟨by simp, by simp⟩

/-! ## Frames for the rest of the state -/

namespace KInv

/-- Everything the invariant reads is unchanged. -/
lemma of_eq (h : KInv T k) (hpm : k'.pm = k.pm) (henvs : k'.envs = k.envs)
    (hbase : k'.basePgdir = k.basePgdir) (hcur : k'.curenv = k.curenv)
    (hdir : k'.curPgdir = k.curPgdir) (hfree : k'.envFreeList = k.envFreeList) : KInv T k' := by
  have hdirs : k'.dirs = k.dirs := by
    funext e
    rw [Kernel.dirs, Kernel.dirs, henvs]
  refine ⟨?_, hbase.trans h.base_eq, ?_, ?_, ?_, ?_⟩
  · rw [hpm, hdirs]
    exact h.pages
  · rw [hcur, hdir, hdirs]
    exact h.cur
  · rw [hfree]
    exact h.free_nodup
  · rw [hfree, henvs]
    exact h.free_free
  · rw [henvs]
    exact h.dstva

lemma setPm (h : KInv T k) (hm : Pages T (NENV + 1) k.dirs m) : KInv T { k with pm := m } :=
  ⟨hm, h.base_eq, h.cur, h.free_nodup, h.free_free, h.dstva⟩

/-- A change of an env that leaves it live or free, with its directory. -/
lemma updateEnv (h : KInv T k) (e : ℕ) {v : Env}
    (hs : v.envStatus = .free ↔ (k.envs e).envStatus = .free)
    (hd : v.envPgdir = (k.envs e).envPgdir) (hva : v.envIpcDstva < UTOP) :
    KInv T { k with envs := Function.update k.envs e v } := by
  have hdirs : Kernel.dirs { k with envs := Function.update k.envs e v } = k.dirs := by
    funext e'
    by_cases hee : e' = e
    · subst hee
      simp only [Kernel.dirs, Function.update_self, hs, hd]
    · simp only [Kernel.dirs, Function.update_of_ne hee]
  refine ⟨?_, h.base_eq, ?_, h.free_nodup, ?_, ?_⟩
  · rw [hdirs]
    exact h.pages
  · rw [hdirs]
    exact h.cur
  · intro e' he'
    refine ⟨?_, (h.free_free e' he').2⟩
    by_cases hee : e' = e
    · subst hee
      simpa using hs.mpr (h.free_free e' he').1
    · simpa [hee] using (h.free_free e' he').1
  · intro e'
    by_cases hee : e' = e
    · subst hee
      simpa using hva
    · simpa [hee] using h.dstva e'

lemma live_of_curenv (h : KInv T k) (he : k.curenv = some e) : ∃ d, k.dirs e = some d :=
  let ⟨d, hd, _⟩ := h.cur e he
  ⟨d, hd⟩

end KInv

lemma dirs_of_ne_free (h : (k.envs e).envStatus ≠ .free) : k.dirs e = some (k.envs e).envPgdir :=
  if_neg h

lemma dirs_eq_some : k.dirs e = some d ↔ (k.envs e).envStatus ≠ .free ∧
    (k.envs e).envPgdir = d := by
  rw [Kernel.dirs]
  split_ifs with h <;> simp [h]

/-- The env an id stands for, where it is valid. -/
def Kernel.envOf (k : Kernel) (envid : Word) : Option ℕ :=
  if envid = 0#32 then k.curenv else some (ENVX envid)

/-- **Env ids resolve to live envs.** -/
lemma KInv.wp_envid2env (h : KInv T k) (envid : Word) (checkperm : Bool) :
    Prog.wp (envid2env envid checkperm) k
      (fun e k' => k' = k ∧ k.dirs e = some (k.envs e).envPgdir ∧ k.envOf envid = some e)
      (fun c k' => c = .code .badEnv ∧ k' = k) (fun p => p = .nullCurenv) := by
  rw [envid2env, Prog.wp_bind, Prog.wp_get]
  by_cases h0 : envid = 0#32
  · rw [if_pos h0, wp_getCurenv]
    refine ⟨fun c hc => ?_, fun _ => rfl⟩
    obtain ⟨d, hd⟩ := h.live_of_curenv hc
    exact ⟨rfl, dirs_of_ne_free (dirs_eq_some.mp hd).1, by rw [Kernel.envOf, if_pos h0, hc]⟩
  · rw [if_neg h0, Prog.wp_ite, Prog.wp_exit]
    refine ⟨fun _ => ⟨rfl, rfl⟩, fun hlive => ?_⟩
    have hok : k = k ∧ k.dirs (ENVX envid) = some (k.envs (ENVX envid)).envPgdir ∧
        k.envOf envid = some (ENVX envid) :=
      ⟨rfl, dirs_of_ne_free fun hc => hlive (.inl hc), by rw [Kernel.envOf, if_neg h0]⟩
    rw [Prog.wp_ite, Prog.wp_bind, wp_getCurenv, Prog.wp_pure]
    refine ⟨fun _ => ⟨fun c _ => ?_, fun _ => rfl⟩, fun _ => hok⟩
    rw [Prog.wp_ite, Prog.wp_exit, Prog.wp_pure]
    exact ⟨fun _ => ⟨rfl, rfl⟩, fun _ => hok⟩

/-! ## Giving an address space back -/

/-- The address `env_free` computes for entry `j` of page table `i`. -/
lemma PDX_PTX_va {i j : ℕ} (hi : i < 1024) (hj : j < 1024) :
    PDX ((BitVec.ofNat 32 i <<< 22) ||| (BitVec.ofNat 32 j <<< 12)) = i ∧
      PTX ((BitVec.ofNat 32 i <<< 22) ||| (BitVec.ofNat 32 j <<< 12)) = j := by
  have hva : ((BitVec.ofNat 32 i <<< 22) ||| (BitVec.ofNat 32 j <<< 12)).toNat =
      i * 2 ^ 22 + j * 2 ^ 12 := by
    rw [BitVec.toNat_or, BitVec.toNat_shiftLeft, BitVec.toNat_shiftLeft, BitVec.toNat_ofNat,
      BitVec.toNat_ofNat, Nat.mod_eq_of_lt (show i < 2 ^ 32 by omega),
      Nat.mod_eq_of_lt (show j < 2 ^ 32 by omega), Nat.shiftLeft_eq j, Nat.shiftLeft_eq i,
      Nat.mod_eq_of_lt (show i * 2 ^ 22 < 2 ^ 32 by omega),
      Nat.mod_eq_of_lt (show j * 2 ^ 12 < 2 ^ 32 by omega), ← Nat.shiftLeft_eq i,
      ← Nat.shiftLeft_add_eq_or_of_lt (show j * 2 ^ 12 < 2 ^ 22 by omega)]
  rw [PDX_eq, PTX_eq, hva]
  omega

namespace Pages

/-- The inner loop of `env_free` empties a page table and leaves the directory alone. -/
lemma wp_envFreeTable (asid : Word) (h : Pages T n dirs m) (he : dirs e = some d) {pt i : ℕ}
    (hi : i < PDX UTOP) (ht : target T.own dirs m (.pde e i) = some pt) :
    Prog.wp (envFreeTable d asid pt i) m
      (fun _ m' => Pages T n dirs m' ∧ (∀ j < 1024, slotWord T.own dirs m' (.pte e i j) = none) ∧
        (∀ i', target T.own dirs m' (.pde e i') = target T.own dirs m (.pde e i')) ∧
        GivesBack T n dirs dirs e m m')
      (fun _ _ => False) (fun _ => False) := by
  have hi' : i < 1024 := by
    rw [PDX_UTOP] at hi
    omega
  rw [envFreeTable]
  refine (Prog.wp_forRange (fun j m' => Pages T n dirs m' ∧
      (∀ j' < j, slotWord T.own dirs m' (.pte e i j') = none) ∧
      (∀ i', target T.own dirs m' (.pde e i') = target T.own dirs m (.pde e i')) ∧
      GivesBack T n dirs dirs e m m')
    1024 0 ⟨h, by simp, fun _ => rfl, .refl⟩ ?_).mono (fun _ m' h' => by simpa using h')
    (fun _ _ hf => hf) fun _ hp => hp
  · rintro j m₁ - hj ⟨h₁, hnone, hpde, hback⟩
    have hj' : j < 1024 := by omega
    obtain ⟨hPDX, hPTX⟩ := PDX_PTX_va hi' hj'
    have ht₁ : target T.own dirs m₁ (.pde e i) = some pt := (hpde i).trans ht
    have hsw := slotWord_pte_of_table hj' ht₁
    rw [Prog.wp_bind, Prog.wp_get, Prog.wp_ite, Prog.wp_pure]
    refine ⟨fun _ => ?_, fun hv => ⟨h₁, fun j'' hj'' => ?_, hpde, hback⟩⟩
    · have ho : T.own (PDX ((BitVec.ofNat 32 i <<< 22) ||| (BitVec.ofNat 32 j <<< 12))) = true := by
        rw [hPDX, Template.own, decide_eq_true_iff]
        exact .inl hi
      refine (h₁.wp_pageRemove asid he ho).mono ?_ (fun _ _ hf => hf) (fun _ hf => hf)
      rintro - m₂ ⟨hcase, h₂⟩
      have hsw₂ := hcase.slotWord h₁.wellFormed he ho
      rw [hPDX, hPTX] at hsw₂
      refine ⟨h₂, fun j'' hj'' => ?_, fun i' => ?_, hback.trans (h₁.givesBack_remove he ho hcase)⟩
      · rw [hsw₂]
        split_ifs with heq
        · rfl
        · exact hnone j'' (by
            have : j'' ≠ j := fun hc => heq (by rw [hc])
            omega)
      · rw [← hpde, target, hsw₂, if_neg (by simp), target]
    · by_cases heq : j'' = j
      · rw [heq, hsw, validWord_of_not_valid hv]
      · exact hnone j'' (by omega)

/-- A round of the outer loop empties one directory entry and leaves the others alone. -/
lemma wp_envFreePde (asid : Word) (h : Pages T n dirs m) (he : dirs e = some d) {i : ℕ}
    (hi : i < PDX UTOP) :
    Prog.wp (envFreePde d asid i) m
      (fun _ m' => Pages T n dirs m' ∧ (∀ i', target T.own dirs m' (.pde e i') =
        if i' = i then none else target T.own dirs m (.pde e i')) ∧ GivesBack T n dirs dirs e m m')
      (fun _ _ => False) (fun _ => False) := by
  have ho : T.own i = true := by
    rw [Template.own, decide_eq_true_iff]
    exact .inl hi
  rw [envFreePde, Prog.wp_bind, Prog.wp_get, Prog.wp_ite, Prog.wp_pure]
  refine ⟨fun hv => ?_, fun hv => ⟨h, fun i' => ?_, .refl⟩⟩
  · have ht : target T.own dirs m (.pde e i) = some (pteFrame (m.mem d i)) :=
      target_eq_some_pde.mpr ⟨ho, d, he, hv, rfl⟩
    have hlt := h.target_lt ht
    rw [Prog.wp_ite]
    refine ⟨fun hc => absurd hlt (not_lt.mpr hc), fun _ => ?_⟩
    rw [Prog.wp_bind]
    refine (h.wp_envFreeTable asid he hi ht).mono ?_ (fun _ _ hf => hf) (fun _ hf => hf)
    rintro - m₁ ⟨h₁, hempty, hpde, hback⟩
    simp only [Prog.wp_bind, Prog.wp_modify, wp_pa2page, Pmap.write_npage]
    have ht₁ := (hpde i).trans ht
    have hlt₁ := h₁.target_lt ht₁
    refine ⟨fun hc => absurd hlt₁ (not_lt.mpr hc), fun _ => ?_⟩
    rw [wp_pageDecref]
    refine ⟨fun hc => absurd hc (h₁.ppRef_ne_zero ht₁), fun _ => ?_⟩
    have hclear : ∀ j < 1024, ¬ HasFlag (m₁.mem (pteFrame (m.mem d i)) j) PTE_V := by
      intro j hj hv
      have := hempty j hj
      rw [slotWord_pte_of_table hj ht₁, validWord_of_valid hv] at this
      simp at this
    obtain ⟨h₂, htgt⟩ := h₁.dropTable he ht₁ hclear
    refine ⟨h₂, fun i' => ?_, hback.trans (h₁.givesBack_dropTable he ht₁ hclear)⟩
    change target T.own dirs ((m₁.write d i 0#32).release (pteFrame (m.mem d i))) (.pde e i') = _
    rw [htgt, Function.update_apply, hpde]
    simp
  · split_ifs with heq
    · rw [heq, target, slotWord_pde ho he, validWord_of_not_valid hv, Option.map_none]
    · rfl

/-- **The page part of `env_free`** gives back everything below `UTOP` and the directory. -/
lemma wp_envFree_pages (asid : Word) (h : Pages T n dirs m) (he : dirs e = some d) :
    Prog.wp (do
        Prog.forRange (envFreePde d asid) 0 (PDX UTOP)
        let pa ← paddr (page2pa d)
        let p ← pa2page pa
        pageDecref p) m
      (fun _ m' => Pages T n (Function.update dirs e none) m' ∧
        ((∀ i, PDX UTOP ≤ i → target T.own dirs m (.pde e i) = none) →
          GivesBack T n dirs (Function.update dirs e none) e m m')) (fun _ _ => False)
      (fun _ => False) := by
  have hd := T.lt_max (h.counted.tgt_pool (.dir e) d he)
  rw [Prog.wp_bind]
  refine (Prog.wp_forRange (fun i m' => Pages T n dirs m' ∧
    (∀ i' < i, target T.own dirs m' (.pde e i') = none) ∧ GivesBack T n dirs dirs e m m')
    (PDX UTOP) 0 ⟨h, by simp, .refl⟩ ?_).mono ?_
    (fun _ _ hf => hf) (fun _ hf => hf)
  · rintro i m₁ - hi ⟨h₁, hnone, hback⟩
    refine (h₁.wp_envFreePde asid he (by omega)).mono ?_ (fun _ _ hf => hf) (fun _ hf => hf)
    rintro - m₂ ⟨h₂, hpde, hback'⟩
    refine ⟨h₂, fun i' hi' => ?_, hback.trans hback'⟩
    rw [hpde]
    split_ifs with heq
    · rfl
    · exact hnone i' (by omega)
  · intro _ m₁ hm₁
    have h₁ := hm₁.1
    have hnone := hm₁.2.1
    have hback := hm₁.2.2
    have hge : ¬ page2pa d < ULIM := by
      rw [BitVec.lt_def, page2pa_toNat hd, ULIM_toNat]
      omega
    have hlt₁ := h₁.target_lt (s := .dir e) he
    simp only [Prog.wp_bind, paddr, if_neg hge, Prog.wp_pure, wp_pa2page, frameOf_page2pa hd,
      wp_pageDecref]
    refine ⟨fun hc => absurd hlt₁ (not_lt.mpr hc), fun _ => ⟨?_, fun _ => ?_⟩⟩
    · exact h₁.ppRef_ne_zero (s := .dir e) he
    · refine ⟨h₁.dropDir he fun i hi => hnone i (by omega), fun hpriv => ?_⟩
      refine hback.trans (h₁.givesBack_dropDir he fun i => ?_)
      by_cases hi : i < PDX UTOP
      · exact hnone i (by omega)
      · rcases hback.released.sub (.pde e i) with heq | hz
        · rw [heq, hpriv i (by omega)]
        · exact hz

end Pages

end

/-! ## References -/

/-- The user half of a directory. -/
def userHalf (i : ℕ) : Bool := decide (i < 512)

/-- The page that a slot names, of the references the kernel answers for: the page directories of
the live envs, their entries below `PDX(UTOP)`, and all entries of their page tables. -/
def Kernel.reference (k : Kernel) : Slot → Option ℕ
  | .dir e => k.dirs e
  | .pde e i => if i < PDX UTOP then target userHalf k.dirs k.pm (.pde e i) else none
  | .pte e i j => target userHalf k.dirs k.pm (.pte e i j)

/-- The number of references to a page. -/
def Kernel.refCount (k : Kernel) (p : ℕ) : ℕ :=
  RefGraph.refs (slots (NENV + 1)) k.reference p

section References

variable {T : Template} {k : Kernel} {p e i j : ℕ} {s : Slot}

lemma userHalf_of_own (h : T.own i = true) : userHalf i = true := by
  rw [Template.own, decide_eq_true_iff, PDX_UTOP, PDX_UVPT] at h
  rw [userHalf, decide_eq_true_iff]
  omega

/-- An entry of a page table that the env owns is read the same way by both. -/
lemma target_pte_userHalf (ho : T.own i = true) :
    target userHalf k.dirs k.pm (.pte e i j) = target T.own k.dirs k.pm (.pte e i j) := by
  simp only [target, slotWord, ho, userHalf_of_own ho]

/-- The references to a page that can be allocated are slots the env owns. -/
lemma KInv.target_of_reference (h : KInv T k) (hp : T.nUsed ≤ p) (hs : k.reference s = some p) :
    target T.own k.dirs k.pm s = some p := by
  cases s with
  | dir e => exact hs
  | pde e i =>
      rw [Kernel.reference] at hs
      split_ifs at hs with hi
      obtain ⟨-, d, hd, hv, rfl⟩ := target_eq_some_pde.mp hs
      have ho : T.own i = true := by
        rw [Template.own, decide_eq_true_iff]
        exact .inl hi
      exact target_eq_some_pde.mpr ⟨ho, d, hd, hv, rfl⟩
  | pte e i j =>
      by_cases ho : T.own i = true
      · rwa [← target_pte_userHalf ho]
      -- an entry of the template's tables names a page in use since before `page_init`
      exfalso
      obtain ⟨t, ht, hj, hv, rfl⟩ := target_pte_eq_some.mp hs
      obtain ⟨hu, d, hd, hvd, rfl⟩ := target_eq_some_pde.mp ht
      rw [userHalf, decide_eq_true_iff] at hu
      have htpl := h.pages.template e d hd i (by omega) (by simpa using ho)
      rw [htpl] at hvd hv hp
      obtain ⟨hent, hlo, hhi⟩ := T.shared_of_entry (by rwa [PDX_ULIM]) (by simpa using ho) hvd
      rw [hent] at hvd hv hp
      obtain ⟨hnot, hshared⟩ := T.shared i hlo hhi hvd
      rw [h.pages.fixed _ hnot] at hv hp
      have := (hshared j hj hv).1
      omega

lemma KInv.refCount_le (h : KInv T k) (hp : T.nUsed ≤ p) :
    k.refCount p ≤ refs (slots (NENV + 1)) (target T.own k.dirs k.pm) p := by
  rw [Kernel.refCount]
  exact refs_mono fun _ hs hsp => ⟨hs, h.target_of_reference hp hsp⟩

/-- A slot the env owns is a reference, the directory entry at `UVPT` excepted. -/
lemma reference_of_target (hne : ∀ e, s ≠ .pde e (PDX UVPT))
    (hs : target T.own k.dirs k.pm s = some p) : k.reference s = some p := by
  cases s with
  | dir e => exact hs
  | pde e i =>
      obtain ⟨ho, d, hd, hv, rfl⟩ := target_eq_some_pde.mp hs
      have hi : i < PDX UTOP := by
        rw [Template.own, decide_eq_true_iff] at ho
        exact ho.resolve_right fun hc => hne e (by rw [hc.2])
      rw [Kernel.reference, if_pos hi]
      exact target_eq_some_pde.mpr ⟨userHalf_of_own ho, d, hd, hv, rfl⟩
  | pte e i j =>
      obtain ⟨t, ht, -⟩ := target_pte_eq_some.mp hs
      rw [Kernel.reference, target_pte_userHalf (target_eq_some_pde.mp ht).1]
      exact hs

/-- Fewer than 65535 references are fewer than 65535 slots: the slots the count leaves out are
exclusive. -/
lemma KInv.refs_lt (h : KInv T k) (hp : k.refCount p < 65535) :
    refs (slots (NENV + 1)) (target T.own k.dirs k.pm) p < 65535 := by
  by_cases hex : ∃ e, target T.own k.dirs k.pm (.pde e (PDX UVPT)) = some p
  · obtain ⟨e, he⟩ := hex
    have hex : Slot.Excl (.pde e (PDX UVPT)) := trivial
    rw [h.pages.counted.refs_of_excl hex he]
    omega
  · refine lt_of_le_of_lt ?_ hp
    rw [Kernel.refCount]
    refine refs_mono fun s hs hsp => ⟨hs, reference_of_target ?_ hsp⟩
    rintro e rfl
    exact hex ⟨e, hsp⟩

end References

end MosRv
