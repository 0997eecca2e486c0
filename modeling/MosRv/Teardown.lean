import MosRv.EnvTable

/-!
# What `env_free` gives back

`env_free` walks the page tables of an env, removes every mapping, and gives back the page tables
and the directory.  `Kernel.EnvFreed` says what that comes to, in terms of the pages the env mapped:
`env_free_returns_all` holds for every pattern of mappings, aliased and shared pages included, as
long as the env has no page table outside the part of its address space that `env_free` walks.

The slots of the env (`GivesBack`) are counted here as its pages: a page table entry below `UTOP` is
the number of a virtual page.
-/

namespace MosRv

open Prog RefGraph

/-- The virtual pages below `UTOP` that map the frame `p`. -/
def Pmap.mappings (m : Pmap) (d p : ℕ) : Finset ℕ :=
  (Finset.range (VPN UTOP).toNat).filter fun v =>
    (m.entryAt d (BitVec.ofNat 32 v <<< 12)).map pteFrame = some p

/-- The frame is the directory `d`, or a page table of it below `UTOP`. -/
def Pmap.TableIn (m : Pmap) (d f : ℕ) : Prop := f = d ∨ ∃ va < UTOP, m.TableAt d va f

/-- **What `env_free(e)` has done.** -/
structure Kernel.EnvFreed (k k' : Kernel) (e : ℕ) : Prop where
  /-- Every page has been counted down as often as `e` mapped it … -/
  count : ∀ p, ¬ k.pm.TableIn (k.envs e).envPgdir p →
    (k'.pm.ppRef p).toNat + (k.pm.mappings (k.envs e).envPgdir p).card = (k.pm.ppRef p).toNat
  /-- … and the page tables and the directory have gone from 1 to 0. -/
  table : ∀ p, k.pm.TableIn (k.envs e).envPgdir p → k.pm.ppRef p = 1#16 ∧ k'.pm.ppRef p = 0#16
  /-- The pages on the free list that were not there. -/
  free : ∃ l, k'.pm.pageFreeList = l ++ k.pm.pageFreeList ∧ l.Nodup ∧ ∀ p, p ∈ l ↔
    ((k.pm.mappings (k.envs e).envPgdir p).Nonempty ∧ k'.pm.ppRef p = 0#16) ∨
      k.pm.TableIn (k.envs e).envPgdir p
  asid : ∀ i, asidUsed k'.asidBitmap i =
    (asidUsed k.asidBitmap i && decide (i ≠ (k.envs e).envAsid.toNat))
  /-- The address spaces of the others … -/
  others : ∀ x ≠ e, (k.envs x).envStatus ≠ .free → ∀ va < ULIM,
    k'.pm.entryAt (k.envs x).envPgdir va = k.pm.entryAt (k.envs x).envPgdir va
  /-- … and all memory but the tables of `e`. -/
  mem : ∀ f, ¬ k.pm.TableIn (k.envs e).envPgdir f → k'.pm.mem f = k.pm.mem f

/-- Every page table of `e` is below `UTOP`. -/
def Kernel.PrivateBelow (T : Template) (k : Kernel) (e : ℕ) : Prop :=
  ∀ i, PDX UTOP ≤ i → T.own i = true → ¬ HasFlag (k.pm.mem (k.envs e).envPgdir i) PTE_V

section

variable {T : Template} {k k' : Kernel} {e d n p f : ℕ} {dirs : ℕ → Option ℕ} {m m' : Pmap}

/-! ## Slots and pages -/

lemma tableOf_iff (he : dirs e = some d)
    (hpriv : ∀ i, PDX UTOP ≤ i → target T.own dirs m (.pde e i) = none) :
    TableOf T.own dirs m e f ↔ m.TableIn d f := by
  have hdir : target T.own dirs m (.dir e) = some d := he
  constructor
  · rintro ⟨s, hs, henv, htgt⟩
    cases s with
    | dir e' =>
        obtain rfl : e' = e := henv
        exact .inl (Option.some.inj (htgt.symm.trans hdir))
    | pde e' i =>
        obtain rfl : e' = e := henv
        have hi : i < PDX UTOP := by
          by_contra hge
          rw [hpriv i (by omega)] at htgt
          cases htgt
        obtain ⟨hPDX, -⟩ := PDX_PTX_va (j := 0) (show i < 1024 by rw [PDX_UTOP] at hi; omega)
          (by decide)
        refine .inr ⟨(BitVec.ofNat 32 i <<< 22) ||| (BitVec.ofNat 32 0 <<< 12), ?_, ?_⟩
        · rw [lt_UTOP_iff, hPDX]
          exact hi
        · rw [← hPDX] at htgt
          exact (tableAt_iff (target_eq_some_pde.mp htgt).1 he).mpr htgt
    | pte e' i j => exact hs.elim
  · rintro (rfl | ⟨va, hva, ht⟩)
    · exact ⟨.dir e, trivial, rfl, hdir⟩
    · exact ⟨.pde e (PDX va), trivial, rfl, (tableAt_iff (own_of_lt_UTOP hva) he).mp ht⟩

/-- The slot of a virtual page. -/
def slotOf (e v : ℕ) : Slot := .pte e (v / 1024) (v % 1024)

lemma slotOf_injective (e : ℕ) : Function.Injective (slotOf e) := by
  intro v v' h
  simp only [slotOf, Slot.pte.injEq, true_and] at h
  omega

lemma VPN_UTOP : (VPN UTOP).toNat = PDX UTOP * 1024 := by decide

lemma entryAt_page (he : dirs e = some d) {v : ℕ} (hv : v < (VPN UTOP).toNat) :
    (m.entryAt d (BitVec.ofNat 32 v <<< 12)).map pteFrame = target T.own dirs m (slotOf e v) := by
  rw [VPN_UTOP, PDX_UTOP] at hv
  have hnat : (BitVec.ofNat 32 v <<< 12).toNat = v * 4096 := by
    rw [BitVec.toNat_shiftLeft, BitVec.toNat_ofNat, Nat.shiftLeft_eq]
    omega
  have hPDX : PDX (BitVec.ofNat 32 v <<< 12) = v / 1024 := by
    rw [PDX_eq, hnat]
    omega
  have hPTX : PTX (BitVec.ofNat 32 v <<< 12) = v % 1024 := by
    rw [PTX_eq, hnat]
    omega
  have ho : T.own (PDX (BitVec.ofNat 32 v <<< 12)) = true := by
    rw [hPDX, Template.own, decide_eq_true_iff, PDX_UTOP]
    omega
  rw [entryAt_eq_slotWord ho he, hPDX, hPTX]
  rfl

/-- The entries that name a page which is no table are those of the virtual pages that map it. -/
lemma filter_slots_eq (h : Pages T n dirs m) (he : dirs e = some d)
    (hpriv : ∀ i, PDX UTOP ≤ i → target T.own dirs m (.pde e i) = none) (hp : ¬ m.TableIn d p) :
    ((slots n).filter fun s => s.env = e ∧ target T.own dirs m s = some p) =
      (m.mappings d p).image (slotOf e) := by
  ext s
  rw [Finset.mem_filter, Finset.mem_image]
  constructor
  · rintro ⟨-, henv, htgt⟩
    have hnot : ¬ s.IsTable := fun hs => hp ((tableOf_iff he hpriv).mp ⟨s, hs, henv, htgt⟩)
    cases s with
    | dir e' => exact absurd trivial hnot
    | pde e' i => exact absurd trivial hnot
    | pte e' i j =>
        obtain rfl : e' = e := henv
        obtain ⟨t, ht, hj, -⟩ := target_pte_eq_some.mp htgt
        have hi : i < PDX UTOP := by
          by_contra hge
          rw [hpriv i (by omega)] at ht
          cases ht
        have hv : i * 1024 + j < (VPN UTOP).toNat := by
          rw [VPN_UTOP]
          rw [PDX_UTOP] at hi ⊢
          omega
        have hslot : slotOf e' (i * 1024 + j) = .pte e' i j := by
          rw [slotOf, show (i * 1024 + j) / 1024 = i by omega,
            show (i * 1024 + j) % 1024 = j by omega]
        refine ⟨i * 1024 + j, Finset.mem_filter.mpr ⟨Finset.mem_range.mpr hv, ?_⟩, hslot⟩
        rw [entryAt_page he hv, hslot, htgt]
  · rintro ⟨v, hv, rfl⟩
    obtain ⟨hv, hent⟩ := Finset.mem_filter.mp hv
    rw [entryAt_page he (Finset.mem_range.mp hv)] at hent
    exact ⟨h.counted.mem_of_tgt hent, rfl, hent⟩

/-! ## What has been counted down -/

/-- Once all slots of `e` are empty, the count of a page has gone down by the slots that named it.
-/
lemma GivesBack.cnt_add (h : GivesBack T n dirs (Function.update dirs e none) e m m') (p : ℕ) :
    (m'.ppRef p).toNat +
      ((slots n).filter fun s => s.env = e ∧ target T.own dirs m s = some p).card =
        (m.ppRef p).toNat := by
  have htgt : ∀ s, target T.own (Function.update dirs e none) m' s = some p ↔
      target T.own dirs m s = some p ∧ s.env ≠ e := by
    intro s
    by_cases hs : s.env = e
    · rw [target_of_dirs_none (by rw [hs, Function.update_self])]
      simp [hs]
    · have hsame : target T.own (Function.update dirs e none) m' s = target T.own dirs m s := by
        cases s with
        | dir e' => exact Function.update_of_ne hs _ _
        | pde e' i => rw [target, target, h.other _ hs]
        | pte e' i j => rw [target, target, h.other _ hs]
      rw [hsame]
      simp [hs]
  have hsplit : refs (slots n) (target T.own dirs m) p =
      refs (slots n) (target T.own (Function.update dirs e none) m') p +
        ((slots n).filter fun s => s.env = e ∧ target T.own dirs m s = some p).card := by
    have hparts := Finset.card_filter_add_card_filter_not
      (s := (slots n).filter fun s => target T.own dirs m s = some p) (fun s => s.env ≠ e)
    rw [Finset.filter_filter, Finset.filter_filter] at hparts
    rw [refs, ← hparts, refs]
    congr 2
    · exact Finset.filter_congr fun s _ => (htgt s).symm
    · exact Finset.filter_congr fun s _ => by simp [and_comm]
  have hadd := h.released.cnt_add p
  omega

/-- A table of `e` was counted once. -/
lemma Pages.ref_of_tableOf (h : Pages T n dirs m) (hf : TableOf T.own dirs m e f) :
    (m.ppRef f).toNat = 1 ∧
      0 < ((slots n).filter fun s => s.env = e ∧ target T.own dirs m s = some f).card := by
  obtain ⟨s, hs, henv, htgt⟩ := hf
  refine ⟨(h.counted.cnt_of_tgt htgt).trans (h.counted.refs_of_excl hs.excl htgt), ?_⟩
  exact Finset.card_pos.mpr
    ⟨s, Finset.mem_filter.mpr ⟨h.counted.mem_of_tgt htgt, henv, htgt⟩⟩

lemma ppRef_eq_zero_iff : m.ppRef p = 0#16 ↔ (m.ppRef p).toNat = 0 := by
  rw [← BitVec.toNat_inj]
  rfl

/-- The page part of `env_free`. -/
lemma GivesBack.envFreed (h : GivesBack T n k.dirs (Function.update k.dirs e none) e k.pm k'.pm)
    (hp : Pages T n k.dirs k.pm) (he : k.dirs e = some (k.envs e).envPgdir)
    (hpriv : ∀ i, PDX UTOP ≤ i → target T.own k.dirs k.pm (.pde e i) = none)
    (hasid : k'.asidBitmap = clearAsid k.asidBitmap (k.envs e).envAsid) : k.EnvFreed k' e := by
  have htable := fun f => tableOf_iff (m := k.pm) (f := f) he hpriv
  have hcount : ∀ p, ¬ k.pm.TableIn (k.envs e).envPgdir p →
      (k'.pm.ppRef p).toNat + (k.pm.mappings (k.envs e).envPgdir p).card =
        (k.pm.ppRef p).toNat := by
    intro p hnot
    rw [← h.cnt_add p, filter_slots_eq hp he hpriv hnot,
      Finset.card_image_of_injective _ (slotOf_injective e)]
  have hgone : ∀ p, k.pm.TableIn (k.envs e).envPgdir p →
      (k.pm.ppRef p).toNat = 1 ∧ (k'.pm.ppRef p).toNat = 0 := by
    intro p ht
    obtain ⟨hone, hpos⟩ := hp.ref_of_tableOf ((htable p).mpr ht)
    have := h.cnt_add p
    exact ⟨hone, by omega⟩
  refine ⟨hcount, fun p ht => ?_, ?_, fun i => ?_, fun x hx hlive va hva => ?_, fun f hf => ?_⟩
  · obtain ⟨hone, hzero⟩ := hgone p ht
    exact ⟨BitVec.eq_of_toNat_eq hone, BitVec.eq_of_toNat_eq hzero⟩
  · obtain ⟨l, hl, hnd, hmem⟩ := h.released.freed
    refine ⟨l, hl, hnd, fun p => ?_⟩
    rw [hmem, ppRef_eq_zero_iff, ← Finset.card_pos]
    by_cases ht : k.pm.TableIn (k.envs e).envPgdir p
    · have := hgone p ht
      simp only [ht, or_true, iff_true]
      omega
    · have := hcount p ht
      simp only [ht, or_false]
      omega
  · rw [hasid, asidUsed_clearAsid]
  · have hd : k.dirs x = some (k.envs x).envPgdir := dirs_of_ne_free hlive
    have hd' : Function.update k.dirs e none x = some (k.envs x).envPgdir := by
      rw [Function.update_of_ne hx, hd]
    cases ho : T.own (PDX va) with
    | true =>
        rw [entryAt_eq_slotWord ho hd', entryAt_eq_slotWord ho hd]
        exact h.other _ hx
    | false =>
        have hdir : ¬ TableOf T.own k.dirs k.pm e (k.envs x).envPgdir := by
          rintro ⟨s, hs, henv, htgt⟩
          have := hp.counted.unique s (.dir x) _ hs.excl htgt hd
          rw [← this] at henv
          exact hx henv
        refine entryAt_congr (by rw [h.mem _ hdir]) fun hv => h.mem _ ?_
        rw [Pmap.pde, hp.template x _ hd _ (PDX_lt va) ho] at hv ⊢
        obtain ⟨hent, hlo, hhi⟩ := T.shared_of_entry ((lt_ULIM_iff va).mp hva) ho hv
        rw [hent] at hv ⊢
        rintro ⟨s, -, -, htgt⟩
        exact (T.shared (PDX va) hlo hhi hv).1 (hp.counted.tgt_pool s _ htgt)
  · exact h.mem f fun hc => hf ((htable f).mp hc)

/-! ## `env_free` -/

/-- **`env_free` gives back exactly what the env held**, if it comes to its end; and it does so for
an env on `env_sched_list`, as a runnable one is. -/
theorem env_free_returns_all (h : Pages T (NENV + 1) k.dirs k.pm)
    (he : (k.envs e).envStatus = .runnable) (hpriv : k.PrivateBelow T e) :
    (∀ k', envFree e k = .ok () k' → k.EnvFreed k' e) ∧
    ∀ es, TailQueue.Rep k.envSchedList es → (∀ x ∈ es, x ≤ NENV) → e ∈ es →
      ∃ k', envFree e k = .ok () k' := by
  have hd : k.dirs e = some (k.envs e).envPgdir := dirs_of_ne_free (by rw [he]; decide)
  have hpde : ∀ i, PDX UTOP ≤ i → target T.own k.dirs k.pm (.pde e i) = none := by
    intro i hi
    by_contra hsome
    obtain ⟨p, hp⟩ := Option.ne_none_iff_exists'.mp hsome
    obtain ⟨ho, d, hd', hv, -⟩ := target_eq_some_pde.mp hp
    obtain rfl := Option.some.inj (hd.symm.trans hd')
    exact hpriv i hi ho hv
  have hwp : ∀ {Q : Unit → Kernel → Prop} {P : Panic → Prop},
      (∀ m, GivesBack T (NENV + 1) k.dirs (Function.update k.dirs e none) e k.pm m →
        wp (onSchedList (.remove e)) { k with
          pm := m
          envs := Function.update k.envs e { k.envs e with envStatus := .free }
          envFreeList := e :: k.envFreeList
          asidBitmap := clearAsid k.asidBitmap (k.envs e).envAsid } Q (fun _ _ => False) P) →
      wp (envFree e) k Q (fun _ _ => False) P := by
    intro Q P hQ
    rw [envFree, wp_bind, wp_get, wp_bind, wp_liftPm]
    refine (h.wp_envFree_pages _ hd).mono ?_ (fun _ _ hf => hf) fun _ hp => hp.elim
    rintro - m ⟨-, hback⟩
    simp only [wp_bind, asidFree, wp_modify, wp_modifyEnv]
    exact hQ m (hback hpde)
  constructor
  · intro k' hrun
    have hfreed : wp (envFree e) k (fun _ k' => k.EnvFreed k' e) (fun _ _ => False) fun _ => True :=
      hwp fun m hback => wp_onSchedList trivial trivial fun q _ => hback.envFreed h hd hpde rfl
    exact hfreed.of_ok hrun
  · intro es hrep hle hmem
    have hends : wp (envFree e) k (fun _ _ => True) (fun _ _ => False) fun _ => False := by
      refine hwp fun m _ => ?_
      obtain ⟨q, hq, -⟩ := hrep.remove hmem
      refine wp_onSchedList_proper (q := q) ?_ hq trivial
      have hlen : es.length ≤ NENV + 1 := by
        have hsub : es ⊆ List.range (NENV + 1) := fun x hx =>
          List.mem_range.mpr (Nat.lt_succ_of_le (hle x hx))
        have := (hrep.nodup.subperm hsub).length_le
        rwa [List.length_range] at this
      change decide (e ∈ k.envSchedList.nodes (NENV + 1) k.envSchedList.first) = true
      rw [hrep.nodes_eq hlen, decide_eq_true_iff]
      exact hmem
    obtain ⟨⟨⟩, k', hrun, -⟩ := hends.exists_ok
    exact ⟨k', hrun⟩

/-- The env of the small program gives back its pages. -/
theorem env_free_returns_all_small : ∃ k k', Reaches (smallMachine false) (fun _ _ => True) k ∧
    envFree 0 k = .ok () k' ∧ k.EnvFreed k' 0 := by
  obtain ⟨k₀, T, k, hk₀, hfrom, hgap, -, hpop⟩ := exists_populated false (C := fun _ _ => True)
    (fun _ _ => trivial) 1 (by decide)
  have hpriv : k.PrivateBelow T 0 := by
    intro i hi ho
    rw [Template.own, decide_eq_true_iff, hgap] at ho
    rcases ho with hlt | ⟨hc, -⟩
    · omega
    · cases hc
  obtain ⟨hfreed, hends⟩ := env_free_returns_all hpop.kInv.pages (hpop.born 0 (by decide)).1 hpriv
  obtain ⟨k', hrun⟩ := hends [0] hpop.sched (by decide) (by decide)
  exact ⟨k, k', hfrom.reaches hk₀, hrun, hfreed k' hrun⟩

end

end MosRv
