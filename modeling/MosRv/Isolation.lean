import MosRv.PageTransfer
import MosRv.User.Memory

/-!
# Isolation of address spaces

What may the kernel do to an env on behalf of another?  Take a set `X` of live envs, and let one run
that is neither in `X` nor the parent of an env in `X`.  Whatever it does, by traps of any kind or
by stores, the mappings of the envs in `X` stay (`Kernel.Spares.entry`), a page that only they map
stays theirs alone (`priv`) and keeps its contents (`mem`), unless the call is `sys_ipc_try_send` to
one of them that waits for a message.

The work is done page by page: `Kernel.Remapped.spares` for one entry that is set, `spares_setByte`
for a store, `spares_setupVm` for an env that is made and `Kernel.Ended.spares` for one that ends.
`SparesCur` carries this through the code that runs for the current env, `spares_syscall` through
the system calls, and `isolation` through a run.
-/

namespace MosRv

open Prog RefGraph

/-- The envs in `X` map the page `f`, and no others do. -/
structure Kernel.Private (k : Kernel) (X : Set ℕ) (f : ℕ) : Prop where
  mapped : ∃ e va w, e ∈ X ∧ IsOwnVa va ∧ k.entry e va = some w ∧ pteFrame w = f
  other : ∀ e va w, e ∉ X → k.Live e → IsOwnVa va → k.entry e va = some w → pteFrame w ≠ f

/-- **From `k` to `k'`, the envs in `X` have been spared**: they and their mappings are as they
were, and the pages that only they map are still theirs alone and as they were. -/
structure Kernel.Spares (k : Kernel) (X : Set ℕ) (k' : Kernel) : Prop where
  env : ∀ x ∈ X, ∃ r, k'.envs x = { k.envs x with envRuns := r }
  entry : ∀ x ∈ X, ∀ va, IsOwnVa va → k'.entry x va = k.entry x va
  priv : ∀ f, k.Private X f → k'.Private X f
  mem : ∀ f, k.Private X f → k'.pm.mem f = k.pm.mem f

/-- **The env `e` has ended**, and the others are as they were. -/
structure Kernel.Ended (k : Kernel) (e : ℕ) (k' : Kernel) : Prop where
  gone : ¬ k'.Live e
  env : ∀ x, x ≠ e → ∃ r, k'.envs x = { k.envs x with envRuns := r }
  entry : ∀ x, x ≠ e → k.Live x → ∀ va, IsOwnVa va → k'.entry x va = k.entry x va
  mem : ∀ f, ¬ k.IsTable f → k'.pm.mem f = k.pm.mem f

section

variable {mc : Machine} {T : Template} {X : Set ℕ} {k k' k'' : Kernel} {e c f : ℕ} {va w : Word}
  {o : Option Word}

namespace Kernel.Spares

lemma refl : k.Spares X k :=
  ⟨fun x _ => ⟨(k.envs x).envRuns, rfl⟩, fun _ _ _ _ => rfl, fun _ h => h, fun _ _ => rfl⟩

lemma trans (h : k.Spares X k') (h' : k'.Spares X k'') : k.Spares X k'' where
  env x hx := by
    obtain ⟨r, hr⟩ := h.env x hx
    obtain ⟨r', hr'⟩ := h'.env x hx
    exact ⟨r', by rw [hr', hr]⟩
  entry x hx va hva := (h'.entry x hx va hva).trans (h.entry x hx va hva)
  priv f hf := h'.priv f (h.priv f hf)
  mem f hf := (h'.mem f (h.priv f hf)).trans (h.mem f hf)

lemma live (h : k.Spares X k') (hX : ∀ x ∈ X, k.Live x) : ∀ x ∈ X, k'.Live x := by
  intro x hx
  obtain ⟨r, hr⟩ := h.env x hx
  rw [Kernel.Live, hr]
  exact hX x hx

/-- What has to be shown: the others have mapped no page that was private. -/
lemma of_others (henv : ∀ x ∈ X, ∃ r, k'.envs x = { k.envs x with envRuns := r })
    (hentry : ∀ x ∈ X, ∀ va, IsOwnVa va → k'.entry x va = k.entry x va)
    (hother : ∀ f, k.Private X f → ∀ e va w, e ∉ X → k'.Live e → IsOwnVa va →
      k'.entry e va = some w → pteFrame w ≠ f)
    (hmem : ∀ f, k.Private X f → k'.pm.mem f = k.pm.mem f) : k.Spares X k' := by
  refine ⟨henv, hentry, fun f hf => ⟨?_, hother f hf⟩, hmem⟩
  obtain ⟨x, va, w, hx, hva, hw, hwf⟩ := hf.mapped
  exact ⟨x, va, w, hx, hva, (hentry x hx va hva).trans hw, hwf⟩

/-- No entry is new. -/
lemma of_sub (henv : ∀ x ∈ X, ∃ r, k'.envs x = { k.envs x with envRuns := r })
    (hentry : ∀ x ∈ X, ∀ va, IsOwnVa va → k'.entry x va = k.entry x va)
    (hsub : ∀ e, k'.Live e → ∀ va, IsOwnVa va → ∀ w, k'.entry e va = some w →
      k.Live e ∧ k.entry e va = some w)
    (hmem : ∀ f, k.Private X f → k'.pm.mem f = k.pm.mem f) : k.Spares X k' := by
  refine of_others henv hentry (fun f hf e va w he hl hva hw => ?_) hmem
  obtain ⟨hl', hw'⟩ := hsub e hl va hva w hw
  exact hf.other e va w he hl' hva hw'

/-- All entries are the same. -/
lemma of_same (hX : ∀ x ∈ X, k.Live x)
    (henv : ∀ x ∈ X, ∃ r, k'.envs x = { k.envs x with envRuns := r })
    (hsame : ∀ e, k'.Live e → k.Live e ∧ ∀ va, IsOwnVa va → k'.entry e va = k.entry e va)
    (hmem : ∀ f, k.Private X f → k'.pm.mem f = k.pm.mem f) : k.Spares X k' := by
  refine of_sub henv (fun x hx => (hsame x ?_).2) (fun e he va hva w hw => ?_) hmem
  · obtain ⟨r, hr⟩ := henv x hx
    rw [Kernel.Live, hr]
    exact hX x hx
  · exact ⟨(hsame e he).1, ((hsame e he).2 va hva).symm.trans hw⟩

/-- The pages and the page directories are the same. -/
lemma of_pm (hX : ∀ x ∈ X, k.Live x)
    (henv : ∀ x ∈ X, ∃ r, k'.envs x = { k.envs x with envRuns := r }) (hpm : k'.pm = k.pm)
    (hdir : ∀ e, k'.Live e → k.Live e ∧ (k'.envs e).envPgdir = (k.envs e).envPgdir) :
    k.Spares X k' := by
  refine of_same hX henv (fun e he => ⟨(hdir e he).1, fun va _ => ?_⟩) fun f _ => by rw [hpm]
  rw [Kernel.entry, Kernel.entry, hpm, (hdir e he).2]

/-- One env, which is not in `X`, is another one, in the same place. -/
lemma of_update {v : Env} (hX : ∀ x ∈ X, k.Live x) (he : e ∉ X) (hpm : k'.pm = k.pm)
    (henvs : k'.envs = Function.update k.envs e v) (hlive : v.envStatus ≠ .free → k.Live e)
    (hdir : v.envPgdir = (k.envs e).envPgdir) : k.Spares X k' := by
  refine of_pm hX (fun x hx => ?_) hpm fun x hl => ?_
  · have hne : x ≠ e := fun hc => he (hc ▸ hx)
    exact ⟨(k.envs x).envRuns, by rw [henvs, Function.update_of_ne hne]⟩
  · rw [Kernel.Live, henvs] at hl
    rw [henvs]
    by_cases hx : x = e
    · subst hx
      rw [Function.update_self] at hl ⊢
      exact ⟨hlive hl, hdir⟩
    · rw [Function.update_of_ne hx] at hl ⊢
      exact ⟨hl, rfl⟩

/-- Nothing has changed in the envs and the pages. -/
lemma of_eq (hpm : k'.pm = k.pm) (henvs : k'.envs = k.envs) : k.Spares X k' := by
  have hentry : k'.entry = k.entry := by
    funext e va
    rw [Kernel.entry, Kernel.entry, hpm, henvs]
  have hpriv : ∀ f, k.Private X f → k'.Private X f := by
    intro f hf
    refine ⟨hentry ▸ hf.mapped, fun e va w he hl => ?_⟩
    rw [Kernel.Live, henvs] at hl
    exact hentry ▸ hf.other e va w he hl
  exact ⟨fun x _ => ⟨(k.envs x).envRuns, by rw [henvs]⟩, fun x _ va _ => by rw [hentry], hpriv,
    fun f _ => by rw [hpm]⟩

end Kernel.Spares

lemma Kernel.Private.maps (h : k.Private X f) (hX : ∀ x ∈ X, k.Live x) : k.Maps f := by
  obtain ⟨x, va, w, hx, hva, hw, hwf⟩ := h.mapped
  exact ⟨x, va, w, hX x hx, hva, hw, hwf⟩

/-! ## One change at a time -/

/-- A page that a live env outside `X` maps is not private. -/
lemma not_private (he : e ∉ X) (hlive : k.Live e) (hva : IsOwnVa va) (hw : k.entry e va = some w) :
    ¬ k.Private X (pteFrame w) :=
  fun h => h.other e va w he hlive hva hw rfl

/-- `env_free` changes no slot of another env, and no page but the tables of the env. -/
lemma Pages.wp_envFree_rest {n d : ℕ} {dirs : ℕ → Option ℕ} {m : Pmap} (asid : Word)
    (h : Pages T n dirs m) (he : dirs e = some d) :
    wp (do
        Prog.forRange (envFreePde d asid) 0 (PDX UTOP)
        let pa ← paddr (page2pa d)
        let p ← pa2page pa
        pageDecref p) m
      (fun _ m' => (∀ s : Slot, s.env ≠ e →
          slotWord T.own (Function.update dirs e none) m' s = slotWord T.own dirs m s) ∧
        ∀ f, ¬ TableOf T.own dirs m e f → m'.mem f = m.mem f) (fun _ _ => True) fun _ => True := by
  rw [wp_bind]
  refine (wp_forRange (E := fun _ _ => False) (P := fun _ => False)
    (fun _ m' => Pages T n dirs m' ∧ GivesBack T n dirs dirs e m m') (PDX UTOP) 0
    ⟨h, .refl⟩ ?_).mono ?_ (fun _ _ _ => trivial) fun _ _ => trivial
  · rintro i m₁ - hi ⟨h₁, hback⟩
    refine (h₁.wp_envFreePde asid he (by omega)).mono ?_ (fun _ _ hf => hf) fun _ hf => hf
    rintro - m₂ ⟨h₂, -, hback₂⟩
    exact ⟨h₂, hback.trans hback₂⟩
  · intro _ m₁ hm₁
    have hback := hm₁.2
    have hd := T.lt_max (h.counted.tgt_pool (.dir e) d he)
    have hge : ¬ page2pa d < ULIM := by
      rw [BitVec.lt_def, page2pa_toNat hd, ULIM_toNat]
      omega
    simp only [wp_bind, paddr, if_neg hge, wp_pure, wp_pa2page, frameOf_page2pa hd, wp_pageDecref]
    refine ⟨fun _ => trivial, fun _ => ⟨fun _ => trivial, fun _ => ⟨fun s hs => ?_, hback.mem⟩⟩⟩
    rw [slotWord_update_dirs hs]
    exact hback.other s hs

section

variable (hk : KInv T k) (hgap : T.gap = true) (hX : ∀ x ∈ X, k.Live x)
include hk hgap hX

/-- An entry of an env that is not in `X` is set, to a page that is not private. -/
lemma Kernel.Remapped.spares (h : k.Remapped k' e va o) (he : e ∉ X)
    (ho : ∀ w, o = some w → ¬ k.Private X (pteFrame w)) : k.Spares X k' := by
  refine .of_others (fun x _ => ⟨_, by rw [h.envs_eq]⟩) (fun x hx y hy => ?_)
    (fun f hf x y w hx hl hy hw => ?_) fun f hf => ?_
  · refine h.entry_of_ne (hX x hx) hy ?_
    rintro ⟨rfl, -⟩
    exact he hx
  · rintro rfl
    rw [h.entry x y (h.live_iff.mp hl) hy] at hw
    split_ifs at hw with hxy
    · exact ho w hw hf
    · exact hf.other x y w hx (h.live_iff.mp hl) hy hw rfl
  · have hm := hf.maps hX
    exact h.mem f (hm.not_isTable hk hgap) (hm.notMem_free hk hgap)

/-- A page that is free is not private. -/
lemma not_private_of_free (hf : f ∈ k.pm.pageFreeList) : ¬ k.Private X f :=
  fun h => (h.maps hX).notMem_free hk hgap hf

/-- A store of an env that is not in `X`. -/
lemma spares_setByte (he : e ∉ X) (hlive : k.Live e) (hva : va < ULIM) (hw : k.entry e va = some w)
    (hW : HasFlag w PTE_W) (a : ℕ) (b : BitVec 8) :
    k.Spares X { k with pm := k.pm.setByte (pteFrame w) a b } := by
  have hown : IsOwnVa va := by
    by_contra ho
    refine hk.pages.not_writable hlive.dirs hva ?_ hw hW
    rw [Template.own_eq hgap]
    simpa [IsOwnVa] using ho
  have hmaps : k.Maps (pteFrame w) := ⟨e, va, w, hlive, hown, hw, rfl⟩
  have hnot := hmaps.not_isTable hk hgap
  rw [setByte_eq_withPage]
  refine .of_same hX (fun x _ => ⟨_, rfl⟩)
    (fun x hl => ⟨hl, fun y hy => entry_withPage hgap hnot hl hy⟩) fun f hf => ?_
  exact withPage_mem_of_ne fun hc => hf.other e va w he hlive hown hw hc.symm

omit hX in
/-- A page that was free has been written to. -/
lemma entry_of_free {m : Pmap} (hm : ∀ f, f ∉ k.pm.pageFreeList → m.mem f = k.pm.mem f)
    (hl : k.Live e)
    (hva : IsOwnVa va) : m.entryAt (k.envs e).envPgdir va = k.entry e va := by
  have hslots : slotWord T.own k.dirs m = slotWord T.own k.dirs k.pm := by
    refine slotWord_congr ?_
    rintro f ⟨s, -, hs⟩
    exact hm f (hk.pages.counted.notMem_free_of_tgt hs)
  rw [entryAt_eq_slotWord (hva.own hgap) hl.dirs, hslots,
    ← entryAt_eq_slotWord (hva.own hgap) hl.dirs]
  rfl

/-- **A page is taken** off the free list. -/
lemma spares_take {m : Pmap} (hm : ∀ f, f ∉ k.pm.pageFreeList → m.mem f = k.pm.mem f) :
    k.Spares X { k with pm := m } := by
  refine .of_same hX (fun x _ => ⟨_, rfl⟩) (fun x hx => ⟨hx, fun y hy => ?_⟩) fun f hf =>
    hm f ((hf.maps hX).notMem_free hk hgap)
  exact entry_of_free hk hgap hm hx hy

omit hgap hX in
/-- A new page directory maps nothing. -/
lemma entryAt_setupVm_none {pp : ℕ} {prest : List ℕ} (hf : k.pm.pageFreeList = pp :: prest)
    (hva : IsOwnVa va) : (k.setupVm pp prest).entryAt pp va = none := by
  have hbase : k.basePgdir ≠ pp := by
    rw [hk.base_eq]
    exact fun hc => T.base_notMem (hc ▸ (hk.pages.fresh hf).1)
  have hpde : ¬ HasFlag ((k.setupVm pp prest).pde pp va) PTE_V := by
    have hva' : PDX va < PDX UTOP ∨ PDX va = PDX UVPT := by
      rwa [IsOwnVa, ownUser, decide_eq_true_iff] at hva
    rw [Pmap.pde, setupVm_mem_self hbase (PDX_lt va), if_pos hva']
    exact not_hasFlag_zero _
  rw [Pmap.entryAt, Pmap.walk_of_not_valid hpde]
  rfl

/-- **A page directory is made** for an env that was free. -/
lemma spares_setupVm {pp : ℕ} {prest : List ℕ} {v : Env} (hf : k.pm.pageFreeList = pp :: prest)
    (he : (k.envs e).envStatus = .free) (hpm : k'.pm = k.setupVm pp prest)
    (henvs : k'.envs = Function.update k.envs e v) (hv : v.envPgdir = pp) : k.Spares X k' := by
  have hm : ∀ f, f ∉ k.pm.pageFreeList → (k.setupVm pp prest).mem f = k.pm.mem f := by
    intro f hfree
    refine setupVm_mem_of_ne ?_
    rintro rfl
    exact hfree (by simp [hf])
  have hne : ∀ {x}, k.Live x → x ≠ e := by
    rintro x hx rfl
    exact hx he
  have hsame : ∀ x, k.Live x → ∀ va, IsOwnVa va → k'.entry x va = k.entry x va := by
    intro x hx va hva
    rw [Kernel.entry, hpm, henvs, Function.update_of_ne (hne hx)]
    exact entry_of_free hk hgap hm hx hva
  refine .of_sub (fun x hx => ⟨(k.envs x).envRuns, ?_⟩) (fun x hx => hsame x (hX x hx))
    (fun x hl va hva w hw => ?_) fun f hf => ?_
  · rw [henvs, Function.update_of_ne (hne (hX x hx))]
  · by_cases hx : x = e
    · rw [Kernel.entry, hpm, henvs, hx, Function.update_self, hv,
        entryAt_setupVm_none hk hf hva] at hw
      cases hw
    · have hl' : k.Live x := by
        rwa [Kernel.Live, henvs, Function.update_of_ne hx] at hl
      exact ⟨hl', (hsame x hl' va hva).symm.trans hw⟩
  · rw [hpm]
    exact hm f ((hf.maps hX).notMem_free hk hgap)

omit hX in
/-- The page that an inserted entry names. -/
lemma pteFrame_insertedWord {pp : ℕ} {perm : Word} (hl : k.Live e) (hva : IsOwnVa va)
    (hpp : pp < 0x80000) (hfits : Fits perm pp) :
    pteFrame (insertedWord (k.entry e va) pp perm) = pp := by
  refine (insertedWord_clean hpp hfits fun w hw => ?_).2
  exact hk.pages.clean _ w ((entryAt_eq_slotWord (hva.own hgap) hl.dirs).symm.trans hw)

omit hX in
/-- **A refill** finds a page, or maps one that was free. -/
lemma wp_doTlbRefill_cases (hcur : k.curenv = some c) (va asid : Word) :
    wp (doTlbRefill va asid) k (fun _ k' => (k' = k ∧ k.entry c va ≠ none) ∨
      ∃ pp m, pp ∈ k.pm.pageFreeList ∧ IsOwnVa va ∧ k' = { k with pm := m } ∧
        k.Remapped k' c va (some (insertedWord (k.entry c va) pp (PTE_W ||| PTE_U))) ∧
        ∀ i, m.mem pp i = 0#32) (fun _ _ => False) fun _ => True := by
  have hlive := Kernel.live_of_cur hk hcur
  have halloc : wp (liftPm (passiveAlloc va (k.envs c).envPgdir asid)) k
      (fun _ k' => ∃ pp m, pp ∈ k.pm.pageFreeList ∧ IsOwnVa va ∧ k' = { k with pm := m } ∧
        k.Remapped k' c va (some (insertedWord (k.entry c va) pp (PTE_W ||| PTE_U))) ∧
        ∀ i, m.mem pp i = 0#32) (fun _ _ => False) fun _ => True := by
    rw [wp_liftPm]
    have hown : wp (passiveAlloc va (k.envs c).envPgdir asid) k.pm
        (fun _ _ => T.own (PDX va) = true) (fun _ _ => True) fun _ => True := by
      simp only [passiveAlloc, wp_ite, wp_panic]
      refine ⟨fun _ => trivial, fun _ => ⟨fun _ => trivial, fun _ => ⟨fun _ => trivial,
        fun h₁ => ⟨fun _ => trivial, fun h₂ => ⟨fun _ => trivial, fun h₃ => ?_⟩⟩⟩⟩⟩
      exact wp_iff.mpr ⟨fun _ _ _ => own_of_gap (.inl hgap) h₁ h₂ h₃, fun _ _ _ => trivial,
        fun _ _ => trivial⟩
    refine ((hk.pages.wp_passiveAlloc asid hlive.dirs (.inl hgap)).and hown).mono ?_
      (fun _ _ h => h.1.elim) fun _ _ => trivial
    rintro - m ⟨⟨-, pp, rest, hf, hcase⟩, ho⟩
    have hva : IsOwnVa va := by rwa [IsOwnVa, ← Template.own_eq hgap]
    obtain ⟨hset, hzero⟩ := remapped_fresh hk hgap hlive hva k.ktf hf hcase
    exact ⟨pp, m, by simp [hf], hva, rfl, hset, hzero⟩
  have hdir := Kernel.curPgdir_of_cur hk hcur
  rw [doTlbRefill, wp_bind, wp_getCurPgdir]
  refine ⟨fun d hd => ?_, fun _ => trivial⟩
  obtain rfl := Option.some.inj (hdir.symm.trans hd)
  rw [wp_bind, wp_liftPm, wp_pageLookup]
  cases hwalk : k.pm.walk (k.envs c).envPgdir va with
  | none => exact halloc.mono (fun _ _ h => .inr h) (fun _ _ h => h) fun _ h => h
  | some tj =>
      refine ⟨fun _ => halloc.mono (fun _ _ h => .inr h) (fun _ _ h => h) fun _ h => h,
        fun hv => ⟨fun _ => trivial, fun _ => .inl ⟨rfl, ?_⟩⟩⟩
      rw [Kernel.entry, Pmap.entryAt, hwalk, Option.bind_some, validWord, if_pos hv]
      simp

/-- **A demand fault** of an env that is not in `X`. -/
lemma spares_doTlbRefill (hcur : k.curenv = some c) (hc : c ∉ X) (va asid : Word) :
    wp (doTlbRefill va asid) k (fun _ k' => k.Spares X k') (fun _ _ => True) fun _ => True := by
  have hlive := Kernel.live_of_cur hk hcur
  refine (wp_doTlbRefill_cases hk hgap hcur va asid).mono ?_ (fun _ _ _ => trivial) fun _ h => h
  rintro - k' (⟨rfl, -⟩ | ⟨pp, m, hmem, hva, -, hset, -⟩)
  · exact .refl
  · refine hset.spares hk hgap hX hc fun w hw => ?_
    obtain rfl := Option.some.inj hw
    rw [pteFrame_insertedWord hk hgap hlive hva (hk.pages.free_lt pp hmem)
      (fits_of_lt (by decide) pp)]
    exact not_private_of_free hk hgap hX hmem

omit hk hgap hX in
lemma Kernel.Ended.live (h : k.Ended e k') {x : ℕ} (hl : k'.Live x) : x ≠ e ∧ k.Live x := by
  have hne : x ≠ e := fun hc => h.gone (hc ▸ hl)
  obtain ⟨r, hr⟩ := h.env x hne
  rw [Kernel.Live, hr] at hl
  exact ⟨hne, hl⟩

omit hX in
/-- **`env_free`** leaves the other envs and their pages as they were. -/
lemma wp_envFree_ended (hlive : k.Live e) :
    wp (envFree e) k (fun _ k' => k.Ended e k' ∧ k'.curenv = k.curenv) (fun _ _ => True)
      fun _ => True := by
  rw [envFree, wp_bind, wp_get, wp_bind, wp_liftPm]
  refine (hk.pages.wp_envFree_rest _ hlive.dirs).mono ?_ (fun _ _ _ => trivial) fun _ _ => trivial
  rintro - m ⟨hother, hmem⟩
  simp only [wp_bind, asidFree, wp_modify, wp_modifyEnv]
  refine wp_onSchedList trivial trivial fun q hq => ⟨⟨?_, fun x hne => ?_, fun x hne hl y hy => ?_,
    fun f hf => hmem f ?_⟩, rfl⟩
  · simp [Kernel.Live]
  · exact ⟨(k.envs x).envRuns, by simp [hne]⟩
  · have hdir : Function.update k.dirs e none x = some (k.envs x).envPgdir := by
      rw [Function.update_of_ne hne, hl.dirs]
    rw [Kernel.entry, Kernel.entry, entryAt_eq_slotWord (hy.own hgap) hl.dirs]
    simp only [Function.update_of_ne hne]
    rw [entryAt_eq_slotWord (hy.own hgap) hdir]
    exact hother _ hne
  · rintro ⟨s, hs, -, htgt⟩
    refine hf ?_
    rw [Kernel.IsTable, ← Template.own_eq hgap]
    exact ⟨s, hs, htgt⟩

lemma Kernel.Ended.spares (h : k.Ended e k') (he : e ∉ X) : k.Spares X k' := by
  refine .of_same hX (fun x hx => h.env x fun hc => he (hc ▸ hx)) (fun x hl => ?_)
    fun f hf => h.mem f ((hf.maps hX).not_isTable hk hgap)
  obtain ⟨hne, hl'⟩ := h.live hl
  exact ⟨hl', h.entry x hne hl'⟩

omit hk hgap in
/-- **`schedule`**, if no env in `X` is running. -/
lemma spares_scheduled {yield : Bool} (hcur : ∀ c, k.curenv = some c → c ∉ X)
    (h : k.Scheduled yield k') : k.Spares X k' := by
  have hrunning : ∀ (k₁ : Kernel) (e : ℕ), k₁.envs = k.envs → k₁.curenv = k.curenv → k₁.pm = k.pm →
      k.Spares X (k₁.running e) := by
    intro k₁ e henvs hcur₁ hpm
    refine .of_pm hX (fun x hx => ?_) hpm fun x hl => ?_
    · have hne : k₁.curenv ≠ some x := fun hc => hcur x (hcur₁ ▸ hc) hx
      by_cases hxe : x = e
      · subst hxe
        exact ⟨(k.envs x).envRuns + 1#32, by
          simp only [Kernel.running, Function.update_self, if_neg hne, henvs]⟩
      · exact ⟨(k.envs x).envRuns, by
          simp only [Kernel.running, Function.update_of_ne hxe, if_neg hne, henvs]⟩
    · obtain ⟨hs, hd, -⟩ := running_fields k₁ e x
      rw [Kernel.Live, hs, henvs] at hl
      exact ⟨hl, by rw [hd, henvs]⟩
  cases h with
  | stay _ _ _ _ => exact hrunning _ _ rfl rfl rfl
  | pick _ _ _ _ => exact hrunning _ _ rfl rfl rfl

end

/-! ## Code that runs for the current env -/

/-- Code that runs for the current env spares the others. -/
def SparesCur (T : Template) (X : Set ℕ) {α : Type} (x : KernelM α) : Prop :=
  KeepsCur T x ∧ ∀ k c, KInv T k → k.curenv = some c → c ∉ X → (∀ x ∈ X, k.Live x) →
    wp x k (fun _ k' => k.Spares X k') (fun _ _ => True) fun _ => True

namespace SparesCur

variable {α β : Type}

lemma pure (a : α) : SparesCur T X (Pure.pure a : KernelM α) :=
  ⟨.pure a, fun _ _ _ _ _ _ => .refl⟩

lemma bind {x : KernelM α} {f : α → KernelM β} (hx : SparesCur T X x)
    (hf : ∀ a, SparesCur T X (f a)) : SparesCur T X (x >>= f) := by
  refine ⟨hx.1.bind fun a => (hf a).1, fun k c hk hcur hc hX => ?_⟩
  rw [wp_bind]
  refine ((hx.2 k c hk hcur hc hX).and (hx.1 k c hk hcur)).mono ?_ (fun _ _ _ => trivial)
    fun _ _ => trivial
  rintro a k' ⟨h, hk', hcur'⟩
  exact ((hf a).2 k' c hk' hcur' hc (h.live hX)).mono (fun _ _ h' => h.trans h')
    (fun _ _ _ => trivial) fun _ _ => trivial

lemma forRange {body : ℕ → KernelM Unit} : ∀ (n lo : ℕ),
    (∀ i, lo ≤ i → i < lo + n → SparesCur T X (body i)) → SparesCur T X (Prog.forRange body lo n)
  | 0, lo, _ => by
      rw [forRange_zero]
      exact pure ()
  | n + 1, lo, h => by
      rw [forRange_succ]
      exact (h lo le_rfl (by omega)).bind fun _ =>
        forRange n (lo + 1) fun i hlo hi => h i (by omega) (by omega)

/-- What it leaves out of sight is not looked at. -/
lemma modify {f : Kernel → Kernel} (hpm : ∀ k, (f k).pm = k.pm) (henvs : ∀ k, (f k).envs = k.envs)
    (hcur : ∀ k, (f k).curenv = k.curenv) (hbase : ∀ k, (f k).basePgdir = k.basePgdir)
    (hdir : ∀ k, (f k).curPgdir = k.curPgdir) (hfree : ∀ k, (f k).envFreeList = k.envFreeList) :
    SparesCur T X (Prog.modify f) := by
  refine ⟨fun k c hk hc => ?_, fun k c _ _ _ _ => .of_eq (hpm k) (henvs k)⟩
  exact ⟨hk.of_eq (hpm k) (henvs k) (hbase k) (hcur k) (hdir k) (hfree k), (hcur k).trans hc⟩

end SparesCur

section

variable (hgap : T.gap = true)
include hgap

lemma sparesCur_loadByte (va : Word) : SparesCur T X (loadByte va) := by
  refine ⟨keepsCur_loadByte va, fun k c hk hcur hc hX => ?_⟩
  rw [loadByte, wp_bind, wp_getCurPgdir]
  refine ⟨fun d hd => ?_, fun _ => trivial⟩
  rw [wp_bind, wp_get]
  cases k.pm.userByte d va with
  | some b => exact .refl
  | none =>
      simp only [wp_ite, wp_panic, wp_bind, wp_get]
      refine ⟨fun _ => trivial, fun _ => ?_⟩
      refine (spares_doTlbRefill hk hgap hX hcur hc va _).mono ?_ (fun _ _ h => h) fun _ h => h
      intro _ k' h'
      cases k'.pm.userByte d va with
      | some b => exact h'
      | none => trivial

lemma sparesCur_storeByte (hva : va < UTOP) (b : BitVec 8) : SparesCur T X (storeByte va b) := by
  refine ⟨keepsCur_storeByte hva b, fun k c hk hcur hc hX => ?_⟩
  have hmapped : ∀ k', KInv T k' → k'.curenv = some c → (∀ x ∈ X, k'.Live x) →
      wp (storeMapped (k'.envs c).envPgdir va b) k' (fun _ k'' => k'.Spares X k'') (fun _ _ => True)
        fun _ => True := by
    intro k' hk' hcur' hX'
    rw [storeMapped, wp_bind, wp_get]
    cases hw : k'.pm.entryAt (k'.envs c).envPgdir va with
    | none => trivial
    | some w =>
        simp only [wp_ite, wp_liftPm, wp_modify, wp_panic]
        exact ⟨fun hW => spares_setByte hk' hgap hX' hc (Kernel.live_of_cur hk' hcur')
          (lt_ULIM_of_lt_UTOP hva) hw hW _ b, fun _ => trivial⟩
  have hdir := Kernel.curPgdir_of_cur hk hcur
  rw [storeByte, wp_bind, wp_getCurPgdir]
  refine ⟨fun d hd => ?_, fun _ => trivial⟩
  obtain rfl := Option.some.inj (hdir.symm.trans hd)
  rw [wp_bind, faultIn, wp_bind, wp_get, wp_ite, wp_pure]
  refine ⟨fun _ => ?_, fun _ => hmapped k hk hcur hX⟩
  refine ((spares_doTlbRefill hk hgap hX hcur hc va _).and
    (hk.wp_doTlbRefill hcur (.inl hgap) k.satpAsid)).mono ?_
      (fun _ _ _ => trivial) fun _ _ => trivial
  rintro - k' ⟨h, hk', m, rfl⟩
  exact (hmapped _ hk' hcur (h.live hX)).mono (fun _ _ h' => h.trans h') (fun _ _ _ => trivial)
    fun _ _ => trivial

lemma sparesCur_loadWord (va : Word) : SparesCur T X (loadWord va) :=
  (sparesCur_loadByte hgap va).bind fun _ => (sparesCur_loadByte hgap _).bind fun _ =>
    (sparesCur_loadByte hgap _).bind fun _ => (sparesCur_loadByte hgap _).bind fun _ => .pure _

lemma sparesCur_loadWords (va : Word) : ∀ (n i : ℕ) (w : ℕ → Word),
    SparesCur T X (loadWords va n i w)
  | 0, _, _ => .pure _
  | n + 1, i, _ => (sparesCur_loadWord hgap _).bind fun _ => sparesCur_loadWords va n (i + 1) _

lemma sparesCur_loadTrapframe (va : Word) : SparesCur T X (loadTrapframe va) :=
  (sparesCur_loadWords hgap va _ _ _).bind fun _ => .pure _

lemma sparesCur_storeTrapframe (hva : va.toNat + TF_SIZE ≤ UTOP.toNat) (tf : Trapframe) :
    SparesCur T X (storeTrapframe va tf) := by
  refine .forRange _ _ fun i _ hi => sparesCur_storeByte hgap ?_ _
  have hU : UTOP.toNat = 0x7f400000 := by decide
  rw [hU] at hva
  rw [BitVec.lt_def, BitVec.toNat_add, BitVec.toNat_ofNat, hU]
  simp only [TF_SIZE] at hva hi
  omega

lemma sparesCur_sysPrintCons (s num : Word) : SparesCur T X (do
    Prog.forRange (fun i => do
      let b ← loadByte (s + BitVec.ofNat 32 i)
      printcharc (b.setWidth 32)) 0 num.toNat
    Pure.pure 0#32) := by
  refine (SparesCur.forRange _ _ fun i _ _ => ?_).bind fun _ => .pure _
  refine (sparesCur_loadByte hgap _).bind fun b => .modify ?_ ?_ ?_ ?_ ?_ ?_
  all_goals exact fun _ => rfl

end

/-! ## System calls -/

/-- The call sends a message to an env in `X` that waits for one. -/
def Syscall.SendsTo (k : Kernel) (X : Set ℕ) : Syscall → Prop
  | .ipcTrySend envid _ _ _ => ∃ x ∈ X, k.envOf envid = some x ∧ (k.envs x).envIpcRecving ≠ 0#32
  | _ => False

/-- **`X` is out of reach**: its envs are live, and the env that runs is neither one of them nor a
parent. -/
structure Kernel.OutOfReach (k : Kernel) (X : Set ℕ) (c : ℕ) : Prop where
  cur : k.curenv = some c
  notMem : c ∉ X
  live : ∀ x ∈ X, k.Live x
  parent : ∀ x ∈ X, (k.envs x).envParentId ≠ (k.envs c).envId

lemma Kernel.OutOfReach.congr (hr : k.OutOfReach X c) (hcur : k'.curenv = k.curenv)
    (henvs : k'.envs = k.envs) : k'.OutOfReach X c where
  cur := hcur.trans hr.cur
  notMem := hr.notMem
  live x hx := by
    rw [Kernel.Live, henvs]
    exact hr.live x hx
  parent x hx := by
    rw [henvs]
    exact hr.parent x hx

lemma Kernel.Resolves.envOf_eq {envid : Word} {b : Bool} (h : k.Resolves envid b e) :
    k.envOf envid = some e := by
  cases h with
  | self h0 hcur => rw [Kernel.envOf, if_pos h0, hcur]
  | other h0 _ _ _ => rw [Kernel.envOf, if_neg h0]

lemma wp_of {α : Type} {x : KernelM α} {P : Prop} (h : P) :
    wp x k (fun _ _ => P) (fun _ _ => True) fun _ => True :=
  wp_iff.mpr ⟨fun _ _ _ => h, fun _ _ _ => trivial, fun _ _ => trivial⟩

lemma wp_resolves {α : Type} {envid : Word} {f : ℕ → KernelM α} :
    wp (envid2env envid true >>= f) k (fun _ _ => ∃ e, k.Resolves envid true e) (fun _ _ => True)
      fun _ => True :=
  wp_envid2env_bind trivial fun e he => wp_of ⟨e, he⟩

section

variable (hk : KInv T k) (hinv : EnvInv k) (hgap : T.gap = true) (hr : k.OutOfReach X c)
include hk hinv hgap hr

omit hk hgap in
lemma Kernel.OutOfReach.notMem_of_resolves {envid : Word}
    (he : k.Resolves envid true e) : e ∉ X := by
  by_cases hcur : k.curenv = some e
  · obtain rfl := Option.some.inj (hr.cur.symm.trans hcur)
    exact hr.notMem
  · obtain ⟨c', hc', -, hparent⟩ := hinv.parent_of_resolves he hcur
    obtain rfl := Option.some.inj (hr.cur.symm.trans hc')
    exact fun hx => hr.parent e hx hparent

lemma spares_sysMemAlloc {envid va perm : Word}
    (ha : (Syscall.memAlloc envid va perm).Admissible k) :
    wp (sysMemAlloc envid va perm) k (fun _ k' => k.Spares X k') (fun _ k' => k.Spares X k')
      fun _ => True := by
  have hres : wp (sysMemAlloc envid va perm) k (fun _ _ => ∃ e, k.Resolves envid true e)
      (fun _ _ => True) fun _ => True := by
    rw [sysMemAlloc, wp_ite, wp_exit]
    exact ⟨fun _ => trivial, fun _ => wp_resolves⟩
  have htake : ∀ {pp rest}, k.pm.pageFreeList = pp :: rest →
      k.Spares X { k with pm := k.pm.take pp rest } := by
    intro pp rest hf
    refine spares_take hk hgap hr.live fun f hfree => Pmap.take_mem_of_ne k.pm rest ?_
    rintro rfl
    exact hfree (by simp [hf])
  refine ((hk.wp_sysMemAlloc_cases envid va perm).and hres).mono ?_ ?_ fun _ _ => trivial
  · rintro - k' ⟨⟨-, hva, e, pp, rest, m, he, hid, hf, hcase, rfl⟩, e', he'⟩
    obtain rfl := Option.some.inj (hid.symm.trans he'.envOf_eq)
    have hlive : k.Live e := (dirs_eq_some.mp he).1
    have hmem : pp ∈ k.pm.pageFreeList := by simp [hf]
    have hset := (remapped_fresh hk hgap hlive (isOwnVa_of_lt hva) k.ktf hf hcase).1
    refine hset.spares hk hgap hr.live (hr.notMem_of_resolves hinv he') fun w hw => ?_
    obtain rfl := Option.some.inj hw
    have hfits : Fits perm pp := (ha pp perm (by simp [Syscall.mapped, hf])).1
    rw [pteFrame_insertedWord hk hgap hlive (isOwnVa_of_lt hva) (hk.pages.free_lt pp hmem)
      (fits_or_PTE_U.mpr hfits)]
    exact not_private_of_free hk hgap hr.live hmem
  · rintro - k' ⟨⟨-, rfl | ⟨pp, hf, rfl⟩⟩, -⟩
    · exact .refl
    · exact htake hf

lemma spares_sysMemMap {srcid srcva dstid dstva perm : Word}
    (ha : (Syscall.memMap srcid srcva dstid dstva perm).Admissible k) :
    wp (sysMemMap srcid srcva dstid dstva perm) k (fun _ k' => k.Spares X k')
      (fun _ k' => k.Spares X k') fun _ => True := by
  have hres : wp (sysMemMap srcid srcva dstid dstva perm) k
      (fun _ _ => srcva < UTOP ∧ ∃ e e', k.Resolves srcid true e ∧ k.Resolves dstid true e')
      (fun _ _ => True) fun _ => True := by
    rw [sysMemMap, wp_ite, wp_exit]
    refine ⟨fun _ => trivial, fun hva => ?_⟩
    rw [not_or] at hva
    exact wp_envid2env_bind trivial fun e he => wp_envid2env_bind trivial fun e' he' =>
      wp_of ⟨isIllegalVa_eq_false hva.1, e, e', he, he'⟩
  refine ((hk.wp_sysMemMap_cases srcid srcva dstid dstva perm).and hres).mono ?_ ?_
    fun _ _ => trivial
  · rintro - k' ⟨⟨-, hva, e, e', pp, m, hid, hpp, hsh, hid', he', hcase, rfl⟩, hsrc,
      e₁, e₁', hr₁, hr₁'⟩
    obtain rfl := Option.some.inj (hid.symm.trans hr₁.envOf_eq)
    obtain rfl := Option.some.inj (hid'.symm.trans hr₁'.envOf_eq)
    have hlive : k.Live e' := (dirs_eq_some.mp he').1
    have hset := remapped_insert hk hgap hlive (isOwnVa_of_lt hva) k.ktf hcase
    refine hset.spares hk hgap hr.live (hr.notMem_of_resolves hinv hr₁') fun w hw => ?_
    obtain rfl := Option.some.inj hw
    obtain ⟨w₀, hw₀, rfl⟩ := Option.map_eq_some_iff.mp hpp
    have hlive₀ : k.Live e := hinv.live_of_resolves hr₁
    have hfits : Fits perm (pteFrame w₀) :=
      (ha _ perm (by simp [Syscall.mapped, hid, hpp])).1
    rw [pteFrame_insertedWord hk hgap hlive (isOwnVa_of_lt hva) ?_ (fits_or_PTE_U.mpr hfits)]
    · exact not_private (hr.notMem_of_resolves hinv hr₁) hlive₀ (isOwnVa_of_lt hsrc) hw₀
    · exact T.lt_max (Kernel.Maps.mem_pool hk hgap
        ⟨e, srcva, w₀, hlive₀, isOwnVa_of_lt hsrc, hw₀, rfl⟩)
  · rintro - k' ⟨⟨-, rfl⟩, -⟩
    exact .refl

lemma spares_sysMemUnmap (envid va : Word) :
    wp (sysMemUnmap envid va) k (fun _ k' => k.Spares X k') (fun _ k' => k.Spares X k')
      fun _ => True := by
  rw [sysMemUnmap, wp_ite, wp_exit]
  refine ⟨fun _ => .refl, fun hva => wp_envid2env_bind .refl fun e he => ?_⟩
  have hlt := isIllegalVa_eq_false hva
  have hlive : k.Live e := hinv.live_of_resolves he
  rw [wp_bind, wp_get, wp_bind, wp_liftPm]
  refine (hk.pages.wp_pageRemove _ hlive.dirs (own_of_lt_UTOP hlt)).mono ?_ (fun _ _ hf => hf.elim)
    fun _ _ => trivial
  rintro - m ⟨hcase, -⟩
  exact (remapped_remove hk hgap hlive (isOwnVa_of_lt hlt) k.ktf hcase).1.spares hk hgap hr.live
    (hr.notMem_of_resolves hinv he) (by simp)

omit hk hgap in
/-- A call that sets the record of an env it may get at. -/
lemma spares_updateEnv {envid : Word} (he : k.Resolves envid true e) {v : Env} (hpm : k'.pm = k.pm)
    (henvs : k'.envs = Function.update k.envs e v) (hdir : v.envPgdir = (k.envs e).envPgdir) :
    k.Spares X k' :=
  .of_update hr.live (hr.notMem_of_resolves hinv he) hpm henvs
    (fun _ => hinv.live_of_resolves he) hdir

omit hk hgap in
lemma spares_sysSetTlbModEntry (envid func : Word) :
    wp (sysSetTlbModEntry envid func) k (fun _ k' => k.Spares X k') (fun _ k' => k.Spares X k')
      fun _ => True := by
  refine wp_envid2env_bind .refl fun e he => ?_
  exact spares_updateEnv hinv hr he rfl rfl rfl

omit hk hgap in
lemma spares_sysSetEnvStatus (envid status : Word) :
    wp (sysSetEnvStatus envid status) k (fun _ k' => k.Spares X k') (fun _ k' => k.Spares X k')
      fun _ => True := by
  have hset : ∀ st, wp (setEnvStatus envid st) k (fun _ k' => k.Spares X k')
      (fun _ k' => k.Spares X k') fun _ => True := by
    intro st
    refine wp_envid2env_bind .refl fun e he => ?_
    rw [wp_bind, updateSchedList, wp_bind, wp_get]
    have hdone : ∀ q, k.Spares X { k with
        envSchedList := q
        envs := Function.update k.envs e { k.envs e with envStatus := st } } :=
      fun q => spares_updateEnv hinv hr he rfl rfl rfl
    split_ifs
    · exact wp_onSchedList trivial trivial fun q _ => hdone q
    · exact wp_onSchedList trivial trivial fun q _ => hdone q
    · exact hdone k.envSchedList
  rw [sysSetEnvStatus, wp_ite, wp_ite, wp_exit]
  exact ⟨fun _ => hset _, fun _ => ⟨fun _ => hset _, fun _ => .refl⟩⟩

lemma spares_sysSetTrapframe (envid tf : Word) :
    wp (sysSetTrapframe envid tf) k (fun _ k' => k.Spares X k') (fun _ k' => k.Spares X k')
      fun _ => True := by
  have hload := ((sparesCur_loadTrapframe (X := X) hgap tf).2 k c hk hr.cur hr.notMem hr.live).and
    (((quiet_loadTrapframe (C := fun _ => False) tf) k))
  rw [sysSetTrapframe, wp_ite, wp_exit]
  refine ⟨fun _ => .refl, fun _ => wp_envid2env_bind .refl fun e he => ?_⟩
  rw [wp_bind, wp_get, wp_ite, wp_bind, wp_bind]
  refine ⟨fun _ => hload.mono ?_ (fun _ _ h => h.2.1.elim) fun _ _ => trivial,
    fun _ => hload.mono ?_ (fun _ _ h => h.2.1.elim) fun _ _ => trivial⟩
  · rintro frame k₁ ⟨h, -⟩
    exact h.trans (.of_eq rfl rfl)
  · rintro frame k₁ ⟨h, m, dev, rfl⟩
    rw [wp_bind, wp_modifyEnv, wp_pure]
    refine h.trans (.of_update (v := { k.envs e with envTf := frame }) (h.live hr.live)
      (hr.notMem_of_resolves hinv he) rfl rfl (fun _ => hinv.live_of_resolves he) rfl)

omit hgap in
lemma spares_sysEnvDestroy (hgap : T.gap = true) (envid : Word) :
    wp (sysEnvDestroy envid) k (fun _ k' => k.Spares X k') (fun _ k' => k.Spares X k')
      fun _ => True := by
  refine wp_envid2env_bind .refl fun e he => ?_
  have hnot := hr.notMem_of_resolves hinv he
  rw [wp_bind, envDestroy, wp_bind]
  refine ((wp_envFree_ended hk hgap (hinv.live_of_resolves he)).and
    (wp_envFree_acts k e)).mono ?_ (fun _ _ h => h.2.elim) fun _ _ => trivial
  rintro - k₁ ⟨⟨hend, hcur⟩, -⟩
  have h := hend.spares hk hgap hr.live hnot
  rw [wp_bind, wp_get, wp_ite, wp_bind, wp_modify, wp_pure]
  refine ⟨fun _ => ?_, fun _ => h⟩
  refine wp_schedule_scheduled.mono (fun _ _ hf => hf.elim) ?_ fun _ h => h
  rintro - k' ⟨-, hs⟩
  have h₂ : k.Spares X { k₁ with curenv := none } := h.trans (.of_eq rfl rfl)
  exact h₂.trans (spares_scheduled (h₂.live hr.live) (fun _ hc => by cases hc) hs)

omit hinv hgap in
lemma spares_sysExofork (hgap : T.gap = true) :
    wp sysExofork k (fun _ k' => k.Spares X k') (fun _ k' => k.Spares X k') fun _ => True := by
  rw [sysExofork, wp_bind, wp_getCurenv]
  refine ⟨fun c' _ => ?_, fun _ => trivial⟩
  rw [wp_bind, wp_get, wp_bind, wp_envAlloc]
  cases hl : k.envFreeList with
  | nil => exact .refl
  | cons e rest =>
      have hfree := (hk.free_free e (by simp [hl])).1
      cases hf : k.pm.pageFreeList with
      | nil => exact .refl
      | cons pp prest =>
          cases (List.range NASID).find? fun i => !asidUsed k.asidBitmap i with
          | none => exact spares_setupVm hk hgap hr.live hf hfree rfl rfl rfl
          | some i =>
              simp only [wp_bind, wp_get, wp_modifyEnv, wp_pure, Function.update_self,
                Function.update_idem, Kernel.allocated]
              exact spares_setupVm hk hgap hr.live hf hfree rfl rfl rfl

omit hk hgap in
lemma spares_sysIpcRecv (dstva : Word) :
    wp (sysIpcRecv dstva) k (fun _ k' => k.Spares X k') (fun _ k' => k.Spares X k')
      fun _ => True := by
  rw [sysIpcRecv, wp_ite, wp_exit, wp_bind, wp_getCurenv]
  refine ⟨fun _ => .refl, fun _ => ⟨fun c' hc' => ?_, fun _ => trivial⟩⟩
  obtain rfl := Option.some.inj (hr.cur.symm.trans hc')
  have hlive : k.Live c := hinv.cur_live c hc'
  rw [wp_bind, wp_modifyEnv, wp_bind]
  refine wp_onSchedList trivial trivial fun q _ => ?_
  rw [wp_bind, wp_modify]
  refine wp_schedule_scheduled.mono (fun _ _ hf => hf.elim) ?_ fun _ h => h
  rintro - k' ⟨-, hs⟩
  have h₁ : k.Spares X { k with
      envs := Function.update k.envs c { k.envs c with
        envIpcRecving := 1#32, envIpcDstva := dstva, envStatus := .notRunnable }
      envSchedList := q
      ktf := k.ktf.setReg 10 0#32 } :=
    .of_update hr.live hr.notMem rfl rfl (fun _ => hlive) rfl
  refine h₁.trans (spares_scheduled (h₁.live hr.live) (fun x hx => ?_) hs)
  obtain rfl := Option.some.inj (hr.cur.symm.trans hx)
  exact hr.notMem

omit hinv in
/-- **A message** to an env that is not in `X`. -/
lemma spares_sysIpcTrySend {envid value srcva perm : Word}
    (ha : (Syscall.ipcTrySend envid value srcva perm).Admissible k)
    (hsend : ¬ (Syscall.ipcTrySend envid value srcva perm).SendsTo k X) :
    wp (sysIpcTrySend envid value srcva perm) k (fun _ k' => k.Spares X k')
      (fun _ k' => k.Spares X k') fun _ => True := by
  have hnot : ∀ {e}, k.envOf envid = some e → (k.envs e).envIpcRecving ≠ 0#32 → e ∉ X :=
    fun hid hrecv hx => hsend ⟨_, hx, hid, hrecv⟩
  have hwoken : ∀ {c e q}, k.envOf envid = some e → (k.envs e).envIpcRecving ≠ 0#32 →
      k.Live e → k.Spares X (k.woken c e value perm q) :=
    fun hid hrecv hl => .of_update hr.live (hnot hid hrecv) rfl rfl (fun _ => hl) rfl
  have hlegal : wp (sysIpcTrySend envid value srcva perm) k (fun _ _ => srcva ≠ 0#32 → srcva < UTOP)
      (fun _ _ => True) fun _ => True := by
    rw [sysIpcTrySend, wp_ite, wp_exit]
    exact ⟨fun _ => trivial, fun hno => wp_of fun h0 => isIllegalVa_eq_false fun hc => hno ⟨h0, hc⟩⟩
  refine ((hk.wp_sysIpcTrySend_cases envid value srcva perm).and hlegal).mono ?_ ?_
    fun _ _ => trivial
  · rintro - k' ⟨⟨-, c', e, q, hcur, hid, he, hrecv, -, ⟨-, rfl⟩ | ⟨h0, pp, m, hpp, -, hcase, rfl⟩⟩,
      hsrc⟩
    · exact hwoken hid hrecv (dirs_eq_some.mp he).1
    · have hlive : k.Live e := (dirs_eq_some.mp he).1
      obtain rfl := Option.some.inj (hr.cur.symm.trans hcur)
      have hown := isOwnVa_of_lt (hk.dstva e)
      have hset := remapped_insert hk hgap hlive hown k.ktf hcase
      have hspares := hset.spares hk hgap hr.live (hnot hid hrecv) fun w hw => ?_
      · exact hspares.trans
          (.of_update (hspares.live hr.live) (hnot hid hrecv) rfl rfl (fun _ => hlive) rfl)
      · obtain rfl := Option.some.inj hw
        obtain ⟨w₀, hw₀, rfl⟩ := Option.map_eq_some_iff.mp hpp
        have hcl := Kernel.live_of_cur hk hr.cur
        have hsown := isOwnVa_of_lt (hsrc h0)
        have hfits : Fits perm (pteFrame w₀) :=
          (ha _ perm (by simp [Syscall.mapped, h0, hr.cur, hpp])).1
        rw [pteFrame_insertedWord hk hgap hlive hown
          (T.lt_max (Kernel.Maps.mem_pool hk hgap ⟨c, srcva, w₀, hcl, hsown, hw₀, rfl⟩))
          (fits_or_PTE_U.mpr hfits)]
        exact not_private hr.notMem hcl hsown hw₀
  · rintro - k' ⟨⟨-, rfl | ⟨c', e, q, -, hid, he, hrecv, -, -, rfl⟩⟩, -⟩
    · exact .refl
    · exact hwoken hid hrecv (dirs_eq_some.mp he).1

/-- **A system call spares every env that it has no right to get at**, and that it sends nothing. -/
lemma spares_syscall {call : Syscall} (ha : call.Admissible k) (hsend : ¬ call.SendsTo k X) :
    wp call.run k (fun _ k' => k.Spares X k') (fun _ k' => k.Spares X k') fun _ => True := by
  have hsame : ∀ {α : Type} {x : KernelM α}, SparesCur T X x →
      wp x k (fun _ k' => k.Spares X k') (fun _ k' => k.Spares X k') fun _ => True := by
    intro α x hx
    exact ((hx.2 k c hk hr.cur hr.notMem hr.live).and (hx.1 k c hk hr.cur)).mono (fun _ _ h => h.1)
      (fun _ _ h => h.2.elim) fun _ _ => trivial
  cases call with
  | putchar ch => exact .of_eq rfl rfl
  | printCons s num =>
      rw [Syscall.run, sysPrintCons, wp_ite, wp_exit]
      exact ⟨fun _ => .refl, fun _ => hsame (sparesCur_sysPrintCons hgap s num)⟩
  | getenvid =>
      rw [Syscall.run, sysGetenvid, wp_bind, wp_getCurenv]
      exact ⟨fun _ _ => .refl, fun _ => trivial⟩
  | yield =>
      refine wp_schedule_scheduled.mono (fun _ _ hf => hf.elim) ?_ fun _ h => h
      rintro - k' ⟨-, hs⟩
      refine spares_scheduled hr.live (fun x hx => ?_) hs
      obtain rfl := Option.some.inj (hr.cur.symm.trans hx)
      exact hr.notMem
  | envDestroy envid => exact spares_sysEnvDestroy hk hinv hr hgap envid
  | setTlbModEntry envid func => exact spares_sysSetTlbModEntry hinv hr envid func
  | memAlloc envid va perm => exact spares_sysMemAlloc hk hinv hgap hr ha
  | memMap srcid srcva dstid dstva perm => exact spares_sysMemMap hk hinv hgap hr ha
  | memUnmap envid va => exact spares_sysMemUnmap hk hinv hgap hr envid va
  | exofork => exact spares_sysExofork hk hr hgap
  | setEnvStatus envid status => exact spares_sysSetEnvStatus hinv hr envid status
  | setTrapframe envid tf => exact spares_sysSetTrapframe hk hinv hgap hr envid tf
  | panic msg => trivial
  | ipcTrySend envid value srcva perm => exact spares_sysIpcTrySend hk hgap hr ha hsend
  | ipcRecv dstva => exact spares_sysIpcRecv hinv hr dstva
  | cgetc =>
      rw [Syscall.run, sysCgetc, wp_bind, wp_get]
      cases k.dev.consIn.dropWhile (· = 0) with
      | nil => trivial
      | cons ch rest => exact .of_eq rfl rfl
  | writeDev va value =>
      rw [Syscall.run, sysWriteDev, wp_ite]
      exact ⟨fun _ => .of_eq rfl rfl, fun _ => .refl⟩
  | readDev va =>
      rw [Syscall.run, sysReadDev, wp_ite]
      exact ⟨fun _ => .refl, fun _ => .refl⟩

end

/-! ## Traps, stores and runs -/

/-- The event sends a message to an env in `X` that waits for one. -/
def Event.SendsTo (k : Kernel) (X : Set ℕ) : Event → Prop
  | .trap tf => ∃ call, tf.Calls call ∧ call.SendsTo k X
  | _ => False

section

variable (hk : KInv T k) (hinv : EnvInv k) (hgap : T.gap = true) (hr : k.OutOfReach X c)
include hk hinv hgap hr

lemma spares_doSyscall (ha : ∀ call, k.ktf.syscall = some call → call.Admissible k)
    (hsend : ∀ call, k.ktf.syscall = some call → ¬ call.SendsTo k X) :
    wp doSyscall k (fun _ k' => k.Spares X k') (fun _ k' => k.Spares X k') fun _ => True := by
  rw [doSyscall, wp_bind, wp_get]
  cases hcall : k.ktf.syscall with
  | none => exact .of_eq rfl rfl
  | some call =>
      simp only [wp_bind, wp_modify, wp_callResult]
      set k₁ : Kernel := { k with ktf := { k.ktf with epc := k.ktf.epc + 4#32 } }
      have hk₁ : KInv T k₁ := hk.of_eq rfl rfl rfl rfl rfl rfl
      have h₀ : k.Spares X k₁ := .of_eq rfl rfl
      refine (spares_syscall hk₁ (hinv.setKtf _) hgap (hr.congr rfl rfl) (ha call hcall)
        (hsend call hcall)).mono (fun r k₂ h => ?_) (fun x k₂ h => ?_) fun _ h => h
      · exact (h₀.trans h).trans (.of_eq rfl rfl)
      · cases x with
        | code err => exact (h₀.trans h).trans (.of_eq rfl rfl)
        | popTf => exact h₀.trans h

omit hinv in
lemma spares_queryVpt :
    wp queryVpt k (fun _ k' => k.Spares X k') (fun _ k' => k.Spares X k') fun _ => True := by
  rw [queryVpt, wp_bind, wp_get, wp_bind]
  refine (((sparesCur_loadWord (X := X) hgap k.ktf.epc).2 k c hk hr.cur hr.notMem hr.live).and
    ((keepsCur_loadWord k.ktf.epc) k c hk hr.cur)).mono ?_
      (fun _ _ h => h.2.elim) fun _ _ => trivial
  rintro instr k₁ ⟨h, -⟩
  rw [wp_ite, wp_ite, wp_panic]
  refine ⟨fun _ => trivial, fun _ => ⟨fun _ => trivial, fun _ => ?_⟩⟩
  rw [wp_bind, wp_get]
  cases k₁.curPgdir with
  | none => trivial
  | some d =>
      rw [wp_bind, vptEntry]
      simp only [wp_ite, wp_pure, wp_liftPm, wp_pgdirWalk_false, wp_panic, wp_modify]
      have hfinal : ∀ tf, k.Spares X { k₁ with ktf := tf } := fun tf => h.trans (.of_eq rfl rfl)
      exact ⟨fun _ => hfinal _, fun _ => ⟨fun _ => hfinal _, fun _ => trivial⟩⟩

omit hinv in
lemma spares_userMod :
    wp userMod k (fun _ k' => k.Spares X k') (fun _ k' => k.Spares X k') fun _ => True := by
  rw [userMod, wp_bind, wp_get, wp_bind, wp_modify, wp_bind]
  set k₁ : Kernel := { k with ktf := k.ktf.setReg 2 (xstackSp (k.ktf.regs 2)) }
  have hk₁ : KInv T k₁ := hk.of_eq rfl rfl rfl rfl rfl rfl
  have h₀ : k.Spares X k₁ := .of_eq rfl rfl
  have hr₁ : k₁.OutOfReach X c := hr.congr rfl rfl
  have hstore := sparesCur_storeTrapframe (T := T) (X := X) hgap (xstackSp_le (k.ktf.regs 2)) k.ktf
  refine ((hstore.2 k₁ c hk₁ hr.cur hr.notMem hr₁.live).and (hstore.1 k₁ c hk₁ hr.cur)).mono ?_
    (fun _ _ h => h.2.elim) fun _ _ => trivial
  rintro - k₂ ⟨h, -⟩
  rw [wp_bind, wp_getCurenv]
  refine ⟨fun c' _ => ?_, fun _ => trivial⟩
  rw [wp_bind, wp_get, wp_ite, wp_modify, wp_panic]
  exact ⟨fun _ => (h₀.trans h).trans (.of_eq rfl rfl), fun _ => trivial⟩

lemma spares_trap {tf : Trapframe} (ha : tf.Admissible k)
    (hsend : ∀ call, tf.Calls call → ¬ call.SendsTo k X) :
    wp (trap tf) k (fun _ k' => k.Spares X k') (fun _ k' => k.Spares X k') fun _ => True := by
  rw [trap, wp_bind, wp_modify, trapsDispatch, wp_bind, wp_get, wp_ite]
  set k₁ : Kernel := { k with ktf := tf }
  have hk₁ : KInv T k₁ := hk.of_eq rfl rfl rfl rfl rfl rfl
  have h₀ : k.Spares X k₁ := .of_eq rfl rfl
  have hr₁ : k₁.OutOfReach X c := hr.congr rfl rfl
  have hthen : ∀ {x : KernelM Unit}, wp x k₁ (fun _ k' => k₁.Spares X k')
    (fun _ k' => k₁.Spares X k')
      (fun _ => True) → wp x k₁ (fun _ k' => k.Spares X k') (fun _ k' => k.Spares X k')
      fun _ => True :=
    fun h => h.mono (fun _ _ h' => h₀.trans h') (fun _ _ h' => h₀.trans h') fun _ hp => hp
  have hfault : wp normalPageFault k₁ (fun _ k' => k₁.Spares X k') (fun _ k' => k₁.Spares X k')
      fun _ => True := by
    rw [normalPageFault, wp_bind, wp_get]
    refine ((spares_doTlbRefill hk₁ hgap hr₁.live hr₁.cur hr.notMem _ _).and
      (keepsCur_doTlbRefill (.inl hgap) _ k₁ c hk₁ hr₁.cur)).mono (fun _ _ h => h.1)
      (fun _ _ h => h.2.elim) fun _ _ => trivial
  refine ⟨fun _ => hthen ?_, fun _ => hthen ?_⟩
  · rw [interruptHandler, wp_bind, wp_get, wp_ite, wp_panic]
    refine ⟨fun _ => wp_schedule_scheduled.mono (fun _ _ hf => hf.elim) ?_ fun _ h => h,
      fun _ => trivial⟩
    rintro - k' ⟨-, hs⟩
    refine spares_scheduled hr₁.live (fun x hx => ?_) hs
    obtain rfl := Option.some.inj (hr₁.cur.symm.trans hx)
    exact hr.notMem
  · rw [exceptionHandler, wp_bind, wp_get]
    simp only [wp_ite, wp_panic, wp_bind, wp_getCurPgdir]
    refine ⟨fun _ => trivial, fun _ => ⟨fun hecall => ?_, fun _ => ⟨fun _ => ⟨fun _ => ?_,
      fun _ => hfault⟩, fun _ => ⟨fun _ => ⟨fun d _ => ⟨fun _ => ?_, fun _ => hfault⟩,
      fun _ => trivial⟩, fun _ => trivial⟩⟩⟩⟩
    · exact spares_doSyscall hk₁ (hinv.setKtf tf) hgap hr₁
        (fun call hcall => ha call ⟨hecall, hcall⟩)
        fun call hcall => hsend call ⟨hecall, hcall⟩
    · exact spares_queryVpt hk₁ hgap hr₁
    · exact spares_userMod hk₁ hgap hr₁

/-- **One step.** -/
lemma Step.spares {ev : Event} (h : Step k ev k') (ha : ev.Admissible k)
    (hsend : ¬ ev.SendsTo k X) :
    k.Spares X k' := by
  obtain ⟨hen, hrun⟩ := h
  have hwp : wp ev.prog k (fun _ k' => k.Spares X k')
      (fun _ k' => k.Spares X k') fun _ => True := by
    cases ev with
    | create img priority => exact absurd hr.cur (by rw [show k.curenv = none from hen]; simp)
    | trap tf => exact spares_trap hk hinv hgap hr ha fun call hcall hs => hsend ⟨call, hcall, hs⟩
    | store va b =>
        obtain ⟨-, hva, d, w, hd, hw, hW, -⟩ := hen
        obtain rfl := Option.some.inj ((Kernel.curPgdir_of_cur hk hr.cur).symm.trans hd)
        rw [Event.prog, wp_bind, wp_getCurPgdir]
        refine ⟨fun d' hd' => ?_, fun _ => trivial⟩
        obtain rfl := Option.some.inj (hd.symm.trans hd')
        rw [wp_bind, wp_get, hw]
        dsimp only
        rw [wp_liftPm, wp_modify]
        exact spares_setByte hk hgap hr.live hr.notMem (Kernel.live_of_cur hk hr.cur) hva hw hW _ b
  rcases hrun with hok | hexit
  · exact hwp.of_ok hok
  · exact hwp.of_exit hexit

end

/-- A step of an env from which `X` is out of reach. -/
def OutsideStep (X : Set ℕ) (k k' : Kernel) : Prop :=
  ∃ c ev, k.OutOfReach X c ∧ Event.Admissible k ev ∧ ¬ ev.SendsTo k X ∧ Step k ev k'

end

end MosRv
