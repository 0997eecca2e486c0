import MosRv.Start
import MosRv.Receivers

/-!
# Calls that fail (`env_alloc`, `sys_exofork`, the memory calls)

A call that returns an error should have done nothing.  `Pmap.SamePages` says so of memory: who is
free, the reference counts and what the pages in use hold (the page tables among them) are as
before. `Kernel.SameEnvs` adds the ASID bitmap, `env_free_list` and the live envs.

`env_alloc` takes its resources one after another and gives none back: where it finds an env and a
page but no ASID, the page is lost (`env_alloc_atomic`).  `sys_mem_alloc` loses the page it took
where there is none left for the page table that `page_insert` needs (`mem_calls_atomic`);
`sys_mem_map` and `sys_mem_unmap` are atomic but for a directory that is mapped as its own page
table.
-/

namespace MosRv

open Prog Reach RefGraph

/-- Nothing that counts has changed about the pages. -/
structure Pmap.SamePages (m m' : Pmap) : Prop where
  free : ∀ pp, pp ∈ m'.pageFreeList ↔ pp ∈ m.pageFreeList
  ppRef : m'.ppRef = m.ppRef
  /-- The pages in use: page tables, page directories, what the envs have mapped. -/
  mem : ∀ f ∉ m.pageFreeList, m'.mem f = m.mem f

lemma Pmap.SamePages.refl (m : Pmap) : m.SamePages m := ⟨fun _ => Iff.rfl, rfl, fun _ _ => rfl⟩

/-- … and nothing about the envs. -/
structure Kernel.SameEnvs (k k' : Kernel) : Prop where
  pages : k.pm.SamePages k'.pm
  asidBitmap : k'.asidBitmap = k.asidBitmap
  envFreeList : k'.envFreeList = k.envFreeList
  live : ∀ e, (k.envs e).envStatus ≠ .free → k'.envs e = k.envs e

lemma Kernel.SameEnvs.refl (k : Kernel) : k.SameEnvs k := ⟨.refl _, rfl, rfl, fun _ _ => rfl⟩

/-! ## Creating an env -/

section Create

variable {k : Kernel} {parentId : Word}

/-- There are an env and a page to be had, but no ASID. -/
def Kernel.OnlyAsidMissing (k : Kernel) : Prop :=
  k.envFreeList ≠ [] ∧ k.pm.pageFreeList ≠ [] ∧ ¬ k.HasAsid

/-- The page that `env_alloc` took is not given back: its count has gone up. -/
lemma Kernel.prepared_leaks (k : Kernel) (e pp : ℕ) (prest : List ℕ) (parentId : Word) :
    ¬ k.SameEnvs (k.prepared e pp prest parentId) := by
  intro h
  have href := congrFun h.pages.ppRef pp
  simp [Kernel.prepared, Kernel.setupVm, Pmap.copyWords, Pmap.addRef] at href

lemma wp_envAlloc_atomic (parentId : Word) :
    wp (envAlloc parentId) k (fun _ _ => ¬ k.OnlyAsidMissing)
      (fun _ k' => k.SameEnvs k' ↔ ¬ k.OnlyAsidMissing) fun _ => ¬ k.OnlyAsidMissing := by
  rw [wp_envAlloc]
  cases hl : k.envFreeList with
  | nil => exact iff_of_true (.refl k) fun hc => hc.1 hl
  | cons e rest =>
      cases hf : k.pm.pageFreeList with
      | nil => exact iff_of_true (.refl k) fun hc => hc.2.1 hf
      | cons pp prest =>
          cases hi : (List.range NASID).find? fun i => !asidUsed k.asidBitmap i with
          | none =>
              refine iff_of_false (k.prepared_leaks e pp prest parentId) (not_not.mpr ⟨?_, ?_, ?_⟩)
              · simp [hl]
              · simp [hf]
              · exact not_not.mpr hi
          | some i => exact fun hc => hc.2.2 (by simp [Kernel.HasAsid, hi])

lemma wp_sysExofork_atomic :
    wp sysExofork k (fun _ _ => ¬ k.OnlyAsidMissing)
      (fun _ k' => k.SameEnvs k' ↔ ¬ k.OnlyAsidMissing)
      fun _ => k.curenv ≠ none → ¬ k.OnlyAsidMissing := by
  rw [sysExofork, wp_bind, wp_getCurenv]
  refine ⟨fun c _ => ?_, fun hnone hc => absurd hnone hc⟩
  rw [wp_bind, wp_get, wp_bind]
  refine (wp_envAlloc_atomic (k.envs c).envId).mono (fun e k' h => ?_) (fun _ _ h => h)
    fun _ h _ => h
  simp only [wp_bind, wp_get, wp_modifyEnv, wp_pure]
  exact h

lemma atomicAt_sysExofork :
    AtomicAt Kernel.SameEnvs sysExofork k ↔ ¬ (k.curenv ≠ none ∧ k.OnlyAsidMissing) := by
  by_cases hcur : k.curenv = none
  · refine iff_of_true (wp.atomicAt (Q := fun _ _ => True) (P := fun _ => True) ?_)
      fun h => h.1 hcur
    rw [sysExofork, wp_bind, wp_getCurenv, hcur]
    exact ⟨fun c hc => absurd hc (by simp), fun _ => trivial⟩
  · rw [and_iff_right hcur]
    exact (wp_sysExofork_atomic.mono (fun _ _ h => h)
      (fun _ _ h => h) fun _ h => h hcur).atomicAt_iff

/-- **`env_alloc` and `sys_exofork` are atomic, exactly where they do not fail for want of an ASID
alone.** -/
theorem env_alloc_atomic (k : Kernel) :
    (∀ parentId, AtomicAt Kernel.SameEnvs (envAlloc parentId) k ↔ ¬ k.OnlyAsidMissing) ∧
      (AtomicAt Kernel.SameEnvs sysExofork k ↔ ¬ (k.curenv ≠ none ∧ k.OnlyAsidMissing)) :=
  ⟨fun parentId => (wp_envAlloc_atomic parentId).atomicAt_iff, atomicAt_sysExofork⟩

/-! With 64 envs on the small machine the ASIDs are used up, while there are envs and pages left. -/

lemma Populated.onlyAsidMissing {mc : Machine} {T : Template} (h : Populated mc T NASID k)
    (hroom : mc.nUsed + pagesSpan mc.npage + envsSpan + 1 + 3 * NASID < mc.npage) :
    k.OnlyAsidMissing := by
  refine ⟨?_, fun hnil => ?_, not_not.mpr ?_⟩
  · rw [h.free]
    exact List.ne_nil_of_length_pos (by rw [List.length_range']; decide)
  · have := h.room
    rw [hnil, List.length_nil] at this
    omega
  · rw [List.find?_eq_none]
    intro i hi
    simpa [h.asid] using List.mem_range.mp hi

/-- 64 envs, and the last of them runs. -/
lemma exists_crowded : ∃ T k, Reaches (smallMachine false) (fun k ev => ev.Admissible k) k ∧
    k.curenv = some 63 ∧ KInv T k ∧ k.OnlyAsidMissing := by
  have htick : ∀ k, (Event.trap tickFrame).Admissible k := fun k call hcall =>
    absurd hcall.1 (by decide)
  obtain ⟨k₀, T, k, hk₀, hk, -, hcur, hpop⟩ := exists_started false
    (C := fun k ev => ev.Admissible k) (fun _ _ => trivial) htick (show 63 < NASID by decide)
  exact ⟨T, k, hk.reaches hk₀, hcur, hpop.kInv, hpop.onlyAsidMissing (by decide)⟩

/-- **The page of a failed `sys_exofork` is lost.** -/
theorem exofork_leaks : ∃ k, Reaches (smallMachine false) (fun k ev => ev.Admissible k) k ∧
    k.curenv ≠ none ∧
    ¬ AtomicAt Kernel.SameEnvs sysExofork (k.entering Syscall.exofork.frame) := by
  obtain ⟨T, k, hk, hcur, -, hmiss⟩ := exists_crowded
  have hne : k.curenv ≠ none := by simp [hcur]
  refine ⟨k, hk, hne, fun hat => ?_⟩
  exact atomicAt_sysExofork.mp hat ⟨hne, hmiss⟩

end Create

/-! ## The memory calls -/

section Memory

variable {m : Pmap} {d pp : ℕ} {asid va perm : Word}

lemma wp_pageInsertNew_kept :
    wp (pageInsertNew d pp va perm) m (fun _ _ => True)
      (fun _ m' => m' = m ∧ m.pageFreeList = [] ∧ ¬ HasFlag (m.pde d va) PTE_V)
      fun _ => True := by
  rw [pageInsertNew, wp_bind]
  by_cases hv : HasFlag (m.pde d va) PTE_V
  · rw [wp_pgdirWalk_true hv, Pmap.walk_of_valid hv]
    simp [paddr2pte]
  · cases hl : m.pageFreeList with
    | nil =>
        rw [wp_pgdirWalk_noMem hv hl]
        exact ⟨rfl, rfl, hv⟩
    | cons t rest =>
        rw [pgdirWalk, wp_bind, wp_get, if_neg hv, if_pos rfl, wp_bind, wp_pageAlloc_cons hl]
        simp [paddr2pte]

lemma Pmap.release_ppRef_ne (m : Pmap) (pp : ℕ) : (m.release pp).ppRef ≠ m.ppRef := by
  intro h
  have hpp := congrFun h pp
  simp only [Pmap.release_ppRef, Function.update_self] at hpp
  bv_omega

/-- **What a failed `page_insert` leaves.**  It has removed the page that was mapped only where that
was the directory itself, as its own page table. -/
lemma wp_pageInsert_trace :
    wp (pageInsert d asid pp va perm) m (fun _ _ => True)
      (fun _ m' => (¬ m.SelfMapped d pp va ∧ m' = m) ∨
        (m.SelfMapped d pp va ∧ m'.ppRef ≠ m.ppRef)) fun _ => True := by
  rw [pageInsert, wp_ite, wp_panic]
  refine ⟨fun _ => trivial, fun _ => ?_⟩
  rw [wp_bind, wp_pgdirWalk_false]
  by_cases hv : HasFlag (m.pde d va) PTE_V
  · have hnew : wp (pageInsertNew d pp va perm) m (fun _ _ => True)
        (fun _ m' => (¬ m.SelfMapped d pp va ∧ m' = m) ∨
          (m.SelfMapped d pp va ∧ m'.ppRef ≠ m.ppRef)) fun _ => True :=
      wp_pageInsertNew_kept.mono (fun _ _ _ => trivial) (fun _ _ h => absurd hv h.2.2)
        fun _ _ => trivial
    rw [Pmap.walk_of_valid hv]
    simp only [wp_bind, wp_get, wp_ite, wp_pa2page, wp_modify]
    refine ⟨fun hpv => ⟨fun _ => trivial, fun hlt => ⟨fun hne => ?_, fun _ => trivial⟩⟩,
      fun _ => hnew⟩
    rw [wp_pageRemove, Pmap.walk_of_valid hv]
    refine ⟨fun h => absurd hpv h, fun _ => ⟨fun _ => trivial, fun _ => ⟨fun _ => trivial, ?_⟩⟩⟩
    intro hr
    -- the page has been removed; that the walk then finds no table means it was one
    refine wp_pageInsertNew_kept.mono (fun _ _ _ => trivial) (fun _ m' h => .inr ?_)
      fun _ _ => trivial
    obtain ⟨rfl, hnil, hz⟩ := h
    exact ⟨((selfMapped_iff ⟨hv, rfl⟩ rfl hlt hne hr).mp ⟨hnil, hz⟩).2, Pmap.release_ppRef_ne _ _⟩
  · rw [Pmap.walk_of_not_valid hv]
    exact wp_pageInsertNew_kept.mono (fun _ _ _ => trivial)
      (fun _ _ h => .inl ⟨fun hs => hv hs.tableAt.1, h.1⟩) fun _ _ => trivial

/-- `page_lookup` finds the entry that is there. -/
lemma wp_pageLookup_entry {Q : Option (ℕ × ℕ × ℕ) → Pmap → Prop} {E : Exit → Pmap → Prop}
    {P : Panic → Prop} (hnone : m.entryAt d va = none → Q none m)
    (hsome : ∀ w t j, m.entryAt d va = some w → pteFrame w < m.npage →
      Q (some (pteFrame w, t, j)) m)
    (hpanic : ∀ w, m.entryAt d va = some w → m.npage ≤ pteFrame w → P .pa2pageInvalidPa) :
    wp (pageLookup d va) m Q E P := by
  rw [wp_pageLookup]
  cases hw : m.walk d va with
  | none => exact hnone (by rw [Pmap.entryAt, hw]; rfl)
  | some tj =>
      obtain ⟨t, j⟩ := tj
      have hent : m.entryAt d va = validWord (m.mem t j) := by
        rw [Pmap.entryAt, hw]
        rfl
      refine ⟨fun hv => hnone (by rw [hent, validWord_of_not_valid hv]), fun hv => ?_⟩
      rw [validWord_of_valid hv] at hent
      exact ⟨fun hge => hpanic _ hent hge, fun hlt => hsome _ t j hent hlt⟩

end Memory

section Calls

variable {k : Kernel} {envid srcid dstid va srcva dstva perm : Word} {e : ℕ}

/-- The pages are as before, in a state of the kernel. -/
def Kernel.SamePages (k k' : Kernel) : Prop := k.pm.SamePages k'.pm

/-- `sys_mem_alloc` takes the last page, and there is no page table to map it with: none yet, or one
that goes away with the page that was mapped. -/
def Kernel.AllocLeaks (k : Kernel) (envid va : Word) : Prop :=
  isIllegalVa va = false ∧ ∃ e pp, k.Resolves envid true e ∧ k.pm.pageFreeList = [pp] ∧
    ((k.envs e).envPgdir = pp ∨ ¬ HasFlag (k.pm.pde (k.envs e).envPgdir va) PTE_V ∨
      k.pm.SelfMapped (k.envs e).envPgdir pp va)

/-- No page is free, and `sys_mem_map` unmaps a directory that is its own page table. -/
def Kernel.MapUnmaps (k : Kernel) (srcid srcva dstid dstva : Word) : Prop :=
  isIllegalVa srcva = false ∧ isIllegalVa dstva = false ∧ ∃ s e w,
    k.Resolves srcid true s ∧ k.Resolves dstid true e ∧
      k.pm.entryAt (k.envs s).envPgdir srcva = some w ∧ pteFrame w < k.pm.npage ∧
      k.pm.pageFreeList = [] ∧ k.pm.SelfMapped (k.envs e).envPgdir (pteFrame w) dstva

/-- A call that does not find its env fails at once. -/
lemma wp_notFound {R : Kernel → Kernel → Prop} {f : ℕ → KernelM Word} (hR : R k k)
    (hno : ¬ ∃ e, k.Resolves envid true e) :
    wp (envid2env envid true >>= f) k (fun _ _ => True) (fun _ k' => R k k') fun _ => True :=
  wp_envid2env_bind hR fun e he => absurd ⟨e, he⟩ hno

lemma lt_ULIM_of_legal (h : isIllegalVa va = false) : va < ULIM :=
  lt_ULIM_of_lt_UTOP (isIllegalVa_eq_false (by simp [h]))

/-- The page that was taken is not in the directory's way. -/
lemma insertFails_take {m : Pmap} {d pp : ℕ} {rest : List ℕ} (hva : va < ULIM) :
    (m.take pp rest).InsertFails d pp va ↔ rest = [] ∧
      (d = pp ∨ ¬ HasFlag (m.pde d va) PTE_V ∨ m.SelfMapped d pp va) := by
  rw [Pmap.InsertFails, and_iff_right hva, Pmap.take_pageFreeList]
  refine and_congr_right fun _ => ?_
  by_cases hd : d = pp
  · subst hd
    simp [Pmap.pde, not_hasFlag_zero]
  · have hmem := Pmap.take_mem_of_ne (m := m) rest hd
    have hpde : (m.take pp rest).pde d va = m.pde d va := congrFun hmem _
    have hself : (m.take pp rest).SelfMapped d pp va ↔ m.SelfMapped d pp va := by
      constructor <;> intro h
      · exact ⟨by simpa [Pmap.TableAt, hpde] using h.tableAt, h.index, hd, h.lt_npage, h.ref⟩
      · exact ⟨by simpa [Pmap.TableAt, hpde] using h.tableAt, h.index, hd, h.lt_npage, h.ref⟩
    rw [hpde, hself, or_iff_right hd]

lemma atomicAt_sysMemAlloc :
    AtomicAt Kernel.SamePages (sysMemAlloc envid va perm) k ↔ ¬ k.AllocLeaks envid va := by
  rw [sysMemAlloc]
  cases hill : isIllegalVa va with
  | true =>
      exact iff_of_true (fun _ _ h => by cases h; exact .refl _) fun h => by simp [h.1] at hill
  | false =>
      rw [if_neg Bool.false_ne_true]
      by_cases hres : ∃ e, k.Resolves envid true e
      · obtain ⟨e, he⟩ := hres
        have hiff : ∀ pp rest, k.pm.pageFreeList = pp :: rest → (k.AllocLeaks envid va ↔
            (k.pm.take pp rest).InsertFails (k.envs e).envPgdir pp va) := by
          intro pp rest hf
          rw [insertFails_take (lt_ULIM_of_legal hill), Kernel.AllocLeaks, and_iff_right hill]
          constructor
          · rintro ⟨e', pp', he', hf', h⟩
            obtain rfl := he'.unique he
            rw [hf] at hf'
            obtain ⟨rfl, rfl⟩ := List.cons.inj hf'
            exact ⟨rfl, h⟩
          · rintro ⟨rfl, h⟩
            exact ⟨e, pp, he, hf, h⟩
        refine wp.atomicAt_iff ?_
        rw [he.wp, wp_bind, wp_liftPm]
        cases hf : k.pm.pageFreeList with
        | nil =>
            rw [wp_pageAlloc_nil hf]
            refine iff_of_true (.refl _) ?_
            rintro ⟨-, e', pp, -, hf', -⟩
            exact absurd (hf.symm.trans hf') (by simp)
        | cons pp rest =>
            rw [wp_pageAlloc_cons hf, wp_bind, wp_get, wp_bind, wp_liftPm, hiff pp rest hf]
            refine (wp_pageInsert_fails.and wp_pageInsert_trace).mono (fun _ _ h => h.1) ?_
              fun _ h => h.1
            rintro x m' ⟨⟨-, hfails⟩, htrace⟩
            refine iff_of_false (fun hsame => ?_) (not_not.mpr hfails)
            obtain ⟨rfl, -⟩ := (insertFails_take (lt_ULIM_of_legal hill)).mp hfails
            have hpp : pp ∈ m'.pageFreeList := (hsame.free pp).mpr (by simp [hf])
            obtain ⟨-, rfl⟩ | ⟨-, hne⟩ := htrace
            · simp at hpp
            · exact hne hsame.ppRef
      · refine iff_of_true (wp_notFound (.refl _) hres).atomicAt ?_
        rintro ⟨-, e, -, he, -⟩
        exact hres ⟨e, he⟩

lemma atomicAt_sysMemMap :
    AtomicAt Kernel.SamePages (sysMemMap srcid srcva dstid dstva perm) k ↔
      ¬ k.MapUnmaps srcid srcva dstid dstva := by
  rw [sysMemMap]
  by_cases hill : isIllegalVa srcva = true ∨ isIllegalVa dstva = true
  · rw [if_pos hill]
    refine iff_of_true (fun _ _ h => by cases h; exact .refl _) fun h => ?_
    simp [h.1, h.2.1] at hill
  · rw [if_neg hill]
    rw [not_or, Bool.not_eq_true, Bool.not_eq_true] at hill
    by_cases hsrc : ∃ s, k.Resolves srcid true s
    · obtain ⟨s, hs⟩ := hsrc
      by_cases hdst : ∃ e, k.Resolves dstid true e
      · obtain ⟨e, he⟩ := hdst
        have hiff : k.MapUnmaps srcid srcva dstid dstva ↔ ∃ w,
            k.pm.entryAt (k.envs s).envPgdir srcva = some w ∧ pteFrame w < k.pm.npage ∧
              k.pm.pageFreeList = [] ∧ k.pm.SelfMapped (k.envs e).envPgdir (pteFrame w) dstva := by
          rw [Kernel.MapUnmaps, and_iff_right hill.1, and_iff_right hill.2]
          constructor
          · rintro ⟨s', e', w, hs', he', h⟩
            obtain rfl := hs'.unique hs
            obtain rfl := he'.unique he
            exact ⟨w, h⟩
          · rintro ⟨w, h⟩
            exact ⟨s, e, w, hs, he, h⟩
        rw [hiff]
        refine wp.atomicAt_iff ?_
        rw [hs.wp, he.wp, wp_bind, wp_get, wp_bind, wp_liftPm]
        refine wp_pageLookup_entry (fun hnone => ?_) (fun w t j hw hlt => ?_) fun w hw hge => ?_
        · refine iff_of_true (.refl _) ?_
          rintro ⟨w, hw, -⟩
          exact absurd (hnone.symm.trans hw) (by simp)
        · have hone : ∀ w', k.pm.entryAt (k.envs s).envPgdir srcva = some w' →
              w' = w := fun w' hw' =>
            Option.some.inj (hw'.symm.trans hw)
          rw [wp_bind, wp_liftPm]
          refine (wp_pageInsert_fails.and wp_pageInsert_trace).mono ?_ ?_ ?_
          · rintro - m' ⟨hno, -⟩ ⟨w', hw', -, hnil, hself⟩
            obtain rfl := hone w' hw'
            exact hno ⟨lt_ULIM_of_legal hill.2, hnil, .inr hself⟩
          · rintro x m' ⟨⟨-, -, hnil, -⟩, ⟨hself, rfl⟩ | ⟨hself, hne⟩⟩
            · refine iff_of_true (.refl _) ?_
              rintro ⟨w', hw', -, -, hself'⟩
              obtain rfl := hone w' hw'
              exact hself hself'
            · refine iff_of_false (fun hsame => hne hsame.ppRef) (not_not.mpr ?_)
              exact ⟨w, hw, hlt, hnil, hself⟩
          · rintro p ⟨hno, -⟩ ⟨w', hw', -, hnil, hself⟩
            obtain rfl := hone w' hw'
            exact hno ⟨lt_ULIM_of_legal hill.2, hnil, .inr hself⟩
        · rintro ⟨w', hw', hlt, -⟩
          obtain rfl := Option.some.inj (hw'.symm.trans hw)
          exact absurd hlt (not_lt.mpr hge)
      · refine iff_of_true (wp.atomicAt (Q := fun _ _ => True) (P := fun _ => True) ?_) ?_
        · rw [hs.wp]
          exact wp_notFound (.refl _) hdst
        · rintro ⟨-, -, s, e, w, -, he, -⟩
          exact hdst ⟨e, he⟩
    · refine iff_of_true (wp_notFound (.refl _) hsrc).atomicAt ?_
      rintro ⟨-, -, s, e, w, hs, -⟩
      exact hsrc ⟨s, hs⟩

lemma atomicAt_sysMemUnmap : AtomicAt Kernel.SamePages (sysMemUnmap envid va) k := by
  rw [sysMemUnmap]
  refine wp.atomicAt (Q := fun _ _ => True) (P := fun _ => True) ?_
  rw [wp_ite, wp_exit]
  refine ⟨fun _ => .refl _, fun _ => wp_envid2env_bind (.refl _) fun e he => ?_⟩
  rw [wp_bind, wp_get, wp_bind, wp_liftPm]
  refine ((exits_pageRemove (C := fun _ => False) _ _ _).wp_true k.pm).mono (fun _ _ _ => trivial)
    (fun _ _ hf => hf.elim) fun _ hp => hp

/-- **The memory calls are atomic**, but for a `sys_mem_alloc` that takes the last page and has none
for a page table, and a `sys_mem_map` over a directory mapped as its own page table. -/
theorem mem_calls_atomic (k : Kernel) :
    (∀ envid va perm, AtomicAt Kernel.SamePages (sysMemAlloc envid va perm) k ↔
      ¬ k.AllocLeaks envid va) ∧
    (∀ srcid srcva dstid dstva perm,
      AtomicAt Kernel.SamePages (sysMemMap srcid srcva dstid dstva perm) k ↔
        ¬ k.MapUnmaps srcid srcva dstid dstva) ∧
    ∀ envid va, AtomicAt Kernel.SamePages (sysMemUnmap envid va) k :=
  ⟨fun _ _ _ => atomicAt_sysMemAlloc, fun _ _ _ _ _ => atomicAt_sysMemMap,
    fun _ _ => atomicAt_sysMemUnmap⟩

end Calls

/-! ## The last page

An env forks and leaves the child with an empty address space.  Once the ASIDs are used up, every
further `sys_exofork` takes one page, until one is left. -/

section LastPage

variable {k : Kernel} {c e x i pp : ℕ} {rest prest : List ℕ} {envid va : Word}

lemma run_sysExofork (hcur : k.curenv = some c) (hfree : k.envFreeList = e :: rest)
    (hpage : k.pm.pageFreeList = pp :: prest)
    (hasid : ((List.range NASID).find? fun i => !asidUsed k.asidBitmap i) = some i) :
    Syscall.exofork.run k = .ok (k.nextId e) (k.forked c e rest pp prest i) := by
  have hwp : wp sysExofork k (fun r k' => r = k.nextId e ∧ k' = k.forked c e rest pp prest i)
      (fun _ _ => False) fun _ => False := by
    rw [sysExofork, wp_bind, wp_getCurenv]
    refine ⟨fun c' hc' => ?_, fun hnone => absurd (hcur.symm.trans hnone) (by simp)⟩
    obtain rfl := Option.some.inj (hcur.symm.trans hc')
    rw [wp_bind, wp_get, wp_bind, wp_envAlloc]
    simp only [hfree, hpage, hasid, wp_bind, wp_get, wp_modifyEnv, wp_pure, Function.update_self,
      Function.update_idem]
    exact ⟨congrArg Env.envId (Function.update_self e _ k.envs), rfl⟩
  obtain ⟨r, k', hrun, rfl, rfl⟩ := hwp.exists_ok
  exact hrun

lemma run_sysExofork_noAsid (hcur : k.curenv = some c) (hfree : k.envFreeList = e :: rest)
    (hpage : k.pm.pageFreeList = pp :: prest) (hasid : ¬ k.HasAsid) :
    Syscall.exofork.run k =
      .exit (.code .noFreeEnv) (k.prepared e pp prest (k.envs c).envId) := by
  have hwp : wp sysExofork k (fun _ _ => False)
      (fun x k' => x = .code .noFreeEnv ∧ k' = k.prepared e pp prest (k.envs c).envId)
      fun _ => False := by
    rw [sysExofork, wp_bind, wp_getCurenv]
    refine ⟨fun c' hc' => ?_, fun hnone => absurd (hcur.symm.trans hnone) (by simp)⟩
    obtain rfl := Option.some.inj (hcur.symm.trans hc')
    rw [wp_bind, wp_get, wp_bind, wp_envAlloc]
    simp only [hfree, hpage, not_not.mp hasid]
    exact ⟨trivial, trivial⟩
  obtain ⟨x, k', hrun, rfl, rfl⟩ := hwp.exists_exit
  exact hrun

/-- No ASID is left, and `x`, an env that `c` may name, has no page table for `va`. -/
structure Kernel.Wanting (k : Kernel) (c x : ℕ) (envid va : Word) : Prop where
  cur : k.curenv = some c
  noAsid : ¬ k.HasAsid
  slot : k.envFreeList ≠ []
  names : k.Resolves envid true x
  live : (k.envs x).envStatus ≠ .free
  noTable : ¬ HasFlag (k.pm.pde (k.envs x).envPgdir va) PTE_V
  used : (k.envs x).envPgdir ∉ k.pm.pageFreeList

/-- One `sys_exofork` that fails, one page less. -/
lemma Kernel.Wanting.step (h : k.Wanting c x envid va) (hinv : EnvInv k)
    (hpage : k.pm.pageFreeList = pp :: prest) :
    ∃ k', Step k (.trap Syscall.exofork.frame) k' ∧ k'.Wanting c x envid va ∧
      k'.pm.pageFreeList = prest := by
  obtain ⟨e, rest, hfree⟩ := List.exists_cons_of_ne_nil h.slot
  have hstatus : (k.envs e).envStatus = .free := hinv.free_free e (by simp [hfree])
  have hxe : x ≠ e := fun hx => h.live (hx ▸ hstatus)
  have hce : c ≠ e := fun hc => hinv.cur_live c h.cur (hc ▸ hstatus)
  have hd : (k.envs x).envPgdir ≠ pp := fun hd => h.used (by simp [hpage, hd])
  have hne : k.curenv ≠ none := by simp [h.cur]
  have hrun := run_sysExofork_noAsid (k := k.entering Syscall.exofork.frame) h.cur hfree hpage
    h.noAsid
  refine ⟨_, step_call_failed hne (Syscall.frame_calls _) hrun, ?_, rfl⟩
  set k' := (k.entering Syscall.exofork.frame).prepared e pp prest (k.envs c).envId with hk'
  have henvs : ∀ e' ≠ e, k'.envs e' = k.envs e' := fun e' he' => Function.update_of_ne he' _ _
  refine ⟨h.cur, h.noAsid, h.slot, ?_, ?_, ?_, ?_⟩
  · cases h.names with
    | self h0 hcur => exact .self h0 hcur
    | other h0 hlive hid hperm =>
        refine .other h0 ?_ ?_ fun hp => ?_
        · change (k'.envs _).envStatus ≠ _
          rwa [henvs _ hxe]
        · change (k'.envs _).envId = _
          rwa [henvs _ hxe]
        · obtain ⟨c', hc', hor⟩ := hperm hp
          obtain rfl := Option.some.inj (h.cur.symm.trans hc')
          refine ⟨c, hc', ?_⟩
          change (k'.envs _).envId = (k'.envs c).envId ∨ (k'.envs _).envParentId = (k'.envs c).envId
          rwa [henvs _ hxe, henvs _ hce]
  · change (k'.envs x).envStatus ≠ _
    rw [henvs x hxe]
    exact h.live
  · change ¬ HasFlag (k'.pm.pde (k'.envs x).envPgdir va) PTE_V
    rw [henvs x hxe, Pmap.pde, show k'.pm.mem (k.envs x).envPgdir = k.pm.mem
      (k.envs x).envPgdir from
      setupVm_mem_of_ne hd]
    exact h.noTable
  · change (k'.envs x).envPgdir ∉ prest
    rw [henvs x hxe]
    exact fun hin => h.used (by simp [hpage, hin])

lemma admissible_exofork (k : Kernel) : (Event.trap Syscall.exofork.frame).Admissible k := by
  intro call hcall pp perm hm
  obtain rfl := hcall.unique (Syscall.frame_calls _)
  exact absurd hm nofun

lemma Kernel.Wanting.lastPage {mc : Machine} : ∀ (n : ℕ) {k : Kernel},
    Reaches mc (fun k ev => ev.Admissible k) k → k.Wanting c x envid va →
      k.pm.pageFreeList.length = n + 1 → ∃ k' pp, Reaches mc (fun k ev => ev.Admissible k) k' ∧
        k'.Wanting c x envid va ∧ k'.pm.pageFreeList = [pp]
  | 0, k, hk, h, hlen => by
      obtain ⟨pp, hpp⟩ := List.length_eq_one_iff.mp hlen
      exact ⟨k, pp, hk, h, hpp⟩
  | n + 1, k, hk, h, hlen => by
      obtain ⟨pp, prest, hpage⟩ := List.exists_cons_of_length_eq_add_one hlen
      obtain ⟨k', hstep, h', hpage'⟩ := h.step hk.envInv hpage
      refine lastPage n (hk.step ⟨admissible_exofork k, hstep⟩) h' ?_
      rw [hpage'] at *
      rw [hpage, List.length_cons] at hlen
      omega

/-- The last fork that the ASIDs allow. -/
lemma Populated.fork {mc : Machine} {T : Template} (h : Populated mc T 63 k)
    (hcur : k.curenv = some 62)
    (hroom : mc.nUsed + pagesSpan mc.npage + envsSpan + 1 + 3 * 63 + 1 < mc.npage) :
    ∃ k', Step k (.trap Syscall.exofork.frame) k' ∧
      k'.Wanting 62 63 0x2003F#32 0x10000000#32 ∧ k'.pm.pageFreeList ≠ [] := by
  have hne : k.curenv ≠ none := by simp [hcur]
  have hfree : k.envFreeList = 63 :: List.range' 64 961 := h.free
  obtain ⟨pp, prest, hpage⟩ : ∃ pp prest, k.pm.pageFreeList = pp :: prest := by
    refine List.exists_cons_of_ne_nil fun hnil => ?_
    have := h.room
    rw [hnil, List.length_nil] at this
    omega
  have hmore : prest ≠ [] := by
    intro hnil
    have := h.room
    rw [hpage, hnil, List.length_singleton] at this
    omega
  have hasid : ((List.range NASID).find? fun i => !asidUsed k.asidBitmap i) = some 63 := by
    rw [List.find?_eq_some_iff_getElem]
    refine ⟨by simp [h.asid], 63, by simp [NASID], by simp, fun j hj => by simp [h.asid, hj]⟩
  have hrun := run_sysExofork (k := k.entering Syscall.exofork.frame) hcur hfree hpage hasid
  refine ⟨_, step_call_ok hne (Syscall.frame_calls _) hrun, ?_, hmore⟩
  set k' := (k.entering Syscall.exofork.frame).forked 62 63 (List.range' 64 961) pp prest 63
    with hk'
  have hid : (k'.envs 63).envId = 0x2003F#32 := by
    have : (k'.envs 63).envId = k.nextId 63 := by
      simp [hk', Kernel.forked, Kernel.allocated, Kernel.nextId, Kernel.entering]
    rw [this, Kernel.nextId, h.mkenvid]
    decide
  have hdir : (k'.envs 63).envPgdir = pp := by
    simp [hk', Kernel.forked, Kernel.allocated]
  have hstatus : (k'.envs 63).envStatus ≠ .free := by
    simp [hk', Kernel.forked]
  have hparent : (k'.envs 63).envParentId = (k'.envs 62).envId := by
    simp [hk', Kernel.forked, Kernel.allocated]
  refine ⟨hcur, ?_, ?_, ?_, hstatus, ?_, ?_⟩
  · refine not_not.mpr (List.find?_eq_none.mpr fun i hi => ?_)
    have hi : i < 64 := List.mem_range.mp hi
    have hused : asidUsed k'.asidBitmap i = (decide (i < 63) || decide (i = 63)) := by
      rw [← h.asid]
      exact asidUsed_update k.asidBitmap 63 i
    change ¬ (!asidUsed k'.asidBitmap i) = true
    rw [hused]
    simp
    omega
  · change List.range' 64 961 ≠ []
    decide
  · exact .other (by decide) hstatus hid fun _ => ⟨62, hcur, .inr hparent⟩
  · change ¬ HasFlag (k'.pm.pde (k'.envs 63).envPgdir _) PTE_V
    have hbase : k.basePgdir ≠ pp := by
      rw [h.kInv.base_eq]
      exact fun hc => T.base_notMem (hc ▸ (h.kInv.pages.fresh hpage).1)
    have hz : k'.pm.mem pp (PDX 0x10000000#32) = 0#32 := by
      refine (setupVm_mem_self hbase (PDX_lt 0x10000000#32)).trans ?_
      rw [if_pos (.inl (by decide))]
    rw [hdir, Pmap.pde, hz]
    exact not_hasFlag_zero _
  · change (k'.envs 63).envPgdir ∉ prest
    rw [hdir]
    exact (h.kInv.pages.fresh hpage).2.1

/-- **With one page left, `sys_mem_alloc` loses it.** -/
theorem memAlloc_leaks : ∃ k, Reaches (smallMachine false) (fun k ev => ev.Admissible k) k ∧
    k.curenv ≠ none ∧ ¬ AtomicAt Kernel.SamePages (sysMemAlloc 0x2003F 0x10000000 0)
      (k.entering (Syscall.memAlloc 0x2003F 0x10000000 0).frame) := by
  have htick : ∀ k, (Event.trap tickFrame).Admissible k := fun k call hcall =>
    absurd hcall.1 (by decide)
  obtain ⟨k₀, T, k₁, hk₀, hk₁, -, hcur, hpop⟩ := exists_started false
    (C := fun k ev => ev.Admissible k) (fun _ _ => trivial) htick (show 62 < NASID by decide)
  obtain ⟨k₂, hstep, hwant, hne⟩ := hpop.fork hcur (by decide)
  obtain ⟨n, hn⟩ := Nat.exists_eq_succ_of_ne_zero fun h => hne (List.length_eq_zero_iff.mp h)
  have hk₂ := (hk₁.reaches hk₀).step ⟨admissible_exofork k₁, hstep⟩
  obtain ⟨k, pp, hk, h, hpp⟩ := hwant.lastPage n hk₂ hn
  refine ⟨k, hk, by simp [h.cur], fun hat => ?_⟩
  refine atomicAt_sysMemAlloc.mp hat ⟨by decide, 63, pp, h.names.setKtf _, hpp, ?_⟩
  exact .inr (.inl h.noTable)

end LastPage

end MosRv
