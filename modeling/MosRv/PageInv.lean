import MosRv.PageMap
import MosRv.Lib.RefGraph

/-!
# The reference counts of pages

`Pages T dirs m` is the invariant of `kern/pmap.c` for the family `dirs` of live page directories:
`pp_ref` counts the slots of the family that name a page (`RefGraph.Counted`), a page on the free
list is named by none, and everything outside the pool of allocatable pages, the template
directory in particular, is as it was after `env_init`.

The slots of an env are its directory, the directory entries it owns (`Template.own`) and the
entries of the page tables these name.  The entries in `[UTOP, UVPT)` and from `ULIM` on belong to
the template.  The entry at `UVPT` is one an env comes to own when a store fault there maps a page:
`Template.gap` says whether this is to be allowed for.  Such pages are never mapped anywhere else,
so their slots are exclusive, as those of tables are.

Each change the kernel makes to the pages has a lemma here: `Pages.take`, `Pages.insert`,
`Pages.remove`, `Pages.dropTable`, `Pages.dropDir`, `Pages.newDir`, `Pages.scribble`.
-/

namespace MosRv

open RefGraph

/-- The slots that name a page nobody else names. -/
def Slot.Excl : Slot → Prop
  | .dir _ => True
  | .pde _ _ => True
  | .pte _ i _ => i = PDX UVPT

lemma Slot.IsTable.excl {s : Slot} (h : s.IsTable) : s.Excl := by
  cases s with
  | dir e => trivial
  | pde e i => trivial
  | pte e i j => exact absurd h id

/-- The slots of the envs `0, …, n - 1`. -/
def slots (n : ℕ) : Finset Slot :=
  (Finset.range n).image Slot.dir ∪
    (Finset.range n ×ˢ Finset.range 1024).image (fun x => Slot.pde x.1 x.2) ∪
    (Finset.range n ×ˢ Finset.range 1024 ×ˢ Finset.range 1024).image
      (fun x => Slot.pte x.1 x.2.1 x.2.2)

lemma mem_slots_dir {n e : ℕ} (h : e < n) : Slot.dir e ∈ slots n := by
  simp [slots, h]

lemma mem_slots_pde {n e i : ℕ} (h : e < n) (hi : i < 1024) : Slot.pde e i ∈ slots n := by
  simp [slots, h, hi]

lemma mem_slots_pte {n e i j : ℕ} (h : e < n) (hi : i < 1024) (hj : j < 1024) :
    Slot.pte e i j ∈ slots n := by
  simp [slots, h, hi, hj]

-- There are a thousand million of them: they are never to be enumerated.
attribute [irreducible] slots

/-- The pages after `env_init`: those that can be allocated (`pool`), the template directory, and
the memory around them.  The template's page tables map pages below `nUsed`, those in use before
`page_init`, read-only. -/
structure Template where
  npage : ℕ
  nUsed : ℕ
  pool : List ℕ
  base : ℕ
  mem : ℕ → ℕ → Word
  /-- Whether an env may own the directory entry at `UVPT`. -/
  gap : Bool
  /-- Whether every page is to be counted exactly: none has leaked. -/
  strict : Bool
  strict_gap : strict = true → gap = false
  npage_le : npage ≤ 0x80000
  lt_npage : ∀ p ∈ pool, p < npage
  nUsed_le : ∀ p ∈ pool, nUsed ≤ p
  base_notMem : base ∉ pool
  shared : ∀ i, PDX UTOP ≤ i → i < PDX UVPT → HasFlag (mem base i) PTE_V →
    pteFrame (mem base i) ∉ pool ∧
    ∀ j < 1024, HasFlag (mem (pteFrame (mem base i)) j) PTE_V →
      pteFrame (mem (pteFrame (mem base i)) j) < nUsed ∧
      ¬ HasFlag (mem (pteFrame (mem base i)) j) PTE_W

namespace Template

variable (T : Template)

/-- The directory entries that belong to an env. -/
def own (i : ℕ) : Bool := decide (i < PDX UTOP ∨ (T.gap = true ∧ i = PDX UVPT))

/-- Entry `i` of a new directory, as `env_setup_vm` leaves it. -/
def entry (i : ℕ) : Word := if i < PDX UTOP ∨ i = PDX UVPT then 0#32 else T.mem T.base i

/-- An entry that an env does not own is empty, or one of the shared ones, or the kernel's. -/
lemma shared_of_entry {i : ℕ} (hi : i < PDX ULIM) (ho : T.own i = false)
    (hv : HasFlag (T.entry i) PTE_V) :
    T.entry i = T.mem T.base i ∧ PDX UTOP ≤ i ∧ i < PDX UVPT := by
  rw [own, decide_eq_false_iff_not, not_or] at ho
  rw [entry] at hv ⊢
  split_ifs at hv with hc
  · exact absurd hv (by decide)
  · rw [not_or] at hc
    rw [if_neg (by omega)]
    rw [PDX_ULIM] at hi
    rw [PDX_UVPT] at hc ⊢
    exact ⟨rfl, by omega, by omega⟩

lemma lt_max {p : ℕ} (h : p ∈ T.pool) : p < 0x80000 := (T.lt_npage p h).trans_le T.npage_le

end Template

/-- **The invariant of the pages**, for a family of at most `n` live page directories. -/
structure Pages (T : Template) (n : ℕ) (dirs : ℕ → Option ℕ) (m : Pmap) : Prop where
  npage_eq : m.npage = T.npage
  counted : Counted (slots n) Slot.Excl (· ∈ T.pool) (T.strict = true) (target T.own dirs m)
    (fun p => (m.ppRef p).toNat) m.pageFreeList
  /-- Memory outside the pool is as it was. -/
  fixed : ∀ f, f ∉ T.pool → m.mem f = T.mem f
  /-- The directory entries an env does not own are those of the template. -/
  template : ∀ e d, dirs e = some d → ∀ i < 1024, T.own i = false → m.mem d i = T.entry i
  /-- An entry's page number names its page with no stray bit above. -/
  clean : ∀ s w, slotWord T.own dirs m s = some w → ptePpn w = ptePpn (pteOf (pteFrame w))
  live_lt : ∀ e d, dirs e = some d → e < n

section

variable {T : Template} {n : ℕ} {dirs : ℕ → Option ℕ} {m m' : Pmap} {e d i j t pp : ℕ}
  {asid va perm w : Word} {s : Slot}

/-! ## Consequences -/

namespace Pages

lemma wellFormed (h : Pages T n dirs m) : WellFormed T.own dirs m :=
  ⟨fun s s' p hs => h.counted.unique s s' p hs.excl⟩

lemma freeUnused (h : Pages T n dirs m) : FreeUnused T.own dirs m where
  npage_le := h.npage_eq ▸ T.npage_le
  lt_npage t ht := h.npage_eq ▸ T.lt_npage t (h.counted.free_pool t ht)
  unused t ht s := h.counted.free_unref t ht s

lemma target_lt (h : Pages T n dirs m) (hs : target T.own dirs m s = some pp) : pp < m.npage :=
  h.npage_eq ▸ T.lt_npage pp (h.counted.tgt_pool s pp hs)

lemma free_lt (h : Pages T n dirs m) : ∀ t ∈ m.pageFreeList, t < 0x80000 :=
  fun t ht => T.lt_max (h.counted.free_pool t ht)

lemma ppRef_ne_zero (h : Pages T n dirs m) (hs : target T.own dirs m s = some pp) :
    m.ppRef pp ≠ 0#16 := by
  intro hz
  have := h.counted.cnt_pos_of_tgt hs
  simp [hz] at this

/-- A page an ordinary entry maps is no page table and no directory. -/
lemma not_tableFrame (h : Pages T n dirs m) (hs : target T.own dirs m (.pte e i j) = some pp) :
    ¬ IsTableFrame T.own dirs m pp := by
  rintro ⟨s', hs', ht'⟩
  have := h.counted.unique s' (.pte e i j) pp hs'.excl ht' hs
  rw [← this] at hs'
  exact hs'

end Pages

lemma own_lt (h : T.own i = true) : i < 1024 := by
  rw [Template.own, decide_eq_true_iff, PDX_UTOP, PDX_UVPT] at h
  omega

lemma own_of_lt_UTOP (h : va < UTOP) : T.own (PDX va) = true := by
  rw [Template.own, decide_eq_true_iff]
  exact .inl ((lt_UTOP_iff va).mp h)

/-- One slot changed, as a change of the target function. -/
lemma target_eq_update {s₀ : Slot} {o : Option Word} (hs₀ : ∀ e, s₀ ≠ .dir e)
    (h : ∀ s, slotWord T.own dirs m' s = if s = s₀ then o else slotWord T.own dirs m s) :
    target T.own dirs m' = Function.update (target T.own dirs m) s₀ (o.map pteFrame) := by
  funext s
  rw [target_of_slotWord hs₀ h, Function.update_apply]

/-! ## Counting -/

lemma toNat_addRef (h : (m.ppRef pp).toNat < 65535) :
    (fun p => ((m.addRef pp).ppRef p).toNat) =
      Function.update (fun p => (m.ppRef p).toNat) pp ((m.ppRef pp).toNat + 1) := by
  funext p
  rw [Pmap.addRef_ppRef, Function.update_apply, Function.update_apply]
  split_ifs
  · rw [BitVec.toNat_add]
    exact Nat.mod_eq_of_lt (by simp; omega)
  · rfl

lemma toNat_release (h : m.ppRef pp ≠ 0#16) :
    (fun p => ((m.release pp).ppRef p).toNat) =
      Function.update (fun p => (m.ppRef p).toNat) pp ((m.ppRef pp).toNat - 1) := by
  funext p
  rw [Pmap.release_ppRef, Function.update_apply, Function.update_apply]
  split_ifs
  · have hpos : 0 < (m.ppRef pp).toNat := by
      rw [Nat.pos_iff_ne_zero]
      exact fun hz => h (BitVec.eq_of_toNat_eq (by simpa using hz))
    have hlt := (m.ppRef pp).isLt
    rw [BitVec.toNat_sub, BitVec.toNat_ofNat]
    omega
  · rfl

lemma release_free (m : Pmap) (pp : ℕ) : (m.release pp).pageFreeList =
    if (m.ppRef pp).toNat = 1 then pp :: m.pageFreeList else m.pageFreeList := by
  have hiff : m.ppRef pp - 1#16 = 0#16 ↔ (m.ppRef pp).toNat = 1 := by
    rw [← BitVec.toNat_inj, BitVec.toNat_sub]
    have := (m.ppRef pp).isLt
    simp
    omega
  rw [Pmap.release_pageFreeList]
  simp only [hiff]

/-! ## Changes outside the tables -/

namespace Pages

/-- **Memory that is no table may change freely**, as long as it is in the pool. -/
lemma scribble (h : Pages T n dirs m) (hn : m'.npage = m.npage) (hr : m'.ppRef = m.ppRef)
    (hf : m'.pageFreeList = m.pageFreeList)
    (hmem : ∀ f, m'.mem f ≠ m.mem f → f ∈ T.pool ∧ ¬ IsTableFrame T.own dirs m f) :
    Pages T n dirs m' := by
  have hsw : slotWord T.own dirs m' = slotWord T.own dirs m := by
    apply slotWord_congr
    intro f hf
    by_contra hne
    exact (hmem f hne).2 hf
  refine ⟨hn.trans h.npage_eq, ?_, ?_, ?_, ?_, h.live_lt⟩
  · rw [target_congr hsw, hr, hf]
    exact h.counted
  · intro f hf
    rw [← h.fixed f hf]
    by_contra hne
    exact hf (hmem f hne).1
  · intro e d he i hi ho
    rw [← h.template e d he i hi ho]
    have : m'.mem d = m.mem d := by
      by_contra hne
      exact (hmem d hne).2 ⟨.dir e, trivial, he⟩
    rw [this]
  · rw [hsw]
    exact h.clean

/-- Taking a page off the free list and zeroing it. -/
lemma take {rest : List ℕ} (h : Pages T n dirs m) (hf : m.pageFreeList = pp :: rest) :
    Pages T n dirs (m.take pp rest) := by
  have hmem : pp ∈ m.pageFreeList := by simp [hf]
  have hpool := h.counted.free_pool pp hmem
  have hbase : Pages T n dirs { m with pageFreeList := rest } := by
    have hc := h.counted
    rw [hf] at hc
    exact ⟨h.npage_eq, hc.alloc, h.fixed, h.template, h.clean, h.live_lt⟩
  refine hbase.scribble rfl rfl rfl fun f hne => ?_
  have hfp : f = pp := by
    by_contra hc
    exact hne (Pmap.take_mem_of_ne m rest hc)
  subst hfp
  exact ⟨hpool, fun ⟨s, _, hs⟩ => h.counted.free_unref f hmem s hs⟩

/-- What is known of the page just taken. -/
lemma fresh {rest : List ℕ} (h : Pages T n dirs m) (hf : m.pageFreeList = pp :: rest) :
    pp ∈ T.pool ∧ pp ∉ rest ∧ (∀ s, target T.own dirs (m.take pp rest) s ≠ some pp) ∧
      m.ppRef pp = 0#16 := by
  have hmem : pp ∈ m.pageFreeList := by simp [hf]
  have hsw : slotWord T.own dirs (m.take pp rest) = slotWord T.own dirs m := by
    apply slotWord_congr
    rintro f ⟨s, -, hs⟩
    refine Pmap.take_mem_of_ne m rest fun hc => ?_
    exact h.counted.free_unref pp hmem s (hc ▸ hs)
  refine ⟨h.counted.free_pool pp hmem, ?_, fun s => ?_, ?_⟩
  · have hnd := h.counted.free_nodup
    rw [hf] at hnd
    exact (List.nodup_cons.mp hnd).1
  · rw [target_congr hsw]
    exact h.counted.free_unref pp hmem s
  · exact BitVec.eq_of_toNat_eq (h.counted.free_cnt pp hmem)

/-- Counting an unreferenced page up: it leaks. -/
lemma addRef_unref (h : Pages T n dirs m) (hT : T.strict = false)
    (hpp : ∀ s, target T.own dirs m s ≠ some pp)
    (hfree : pp ∉ m.pageFreeList) : Pages T n dirs (m.addRef pp) := by
  have hsame : ∀ p, p ≠ pp → (m.addRef pp).ppRef p = m.ppRef p := by
    intro p hp
    rw [Pmap.addRef_ppRef, Function.update_of_ne hp]
  have hz : refs (slots n) (target T.own dirs m) pp = 0 := refs_eq_zero_iff.mpr fun s _ => hpp s
  have hc := h.counted
  refine ⟨h.npage_eq, ?_, h.fixed, h.template, h.clean, h.live_lt⟩
  refine ⟨hc.support, hc.free_nodup, hc.free_pool, hc.tgt_pool, hc.free_unref, ?_, ?_, ?_,
    ?_, hc.unique⟩
  · intro p hp
    have hne : p ≠ pp := fun hc => hfree (hc ▸ hp)
    simp only [hsame p hne]
    exact hc.free_cnt p hp
  · intro p
    by_cases hp : p = pp
    · subst hp
      exact hz.le.trans (Nat.zero_le _)
    · simp only [hsame p hp]
      exact hc.refs_le p
  · intro p hne
    have hp : p ≠ pp := by
      rintro rfl
      exact hne hz
    simp only [hsame p hp]
    exact hc.cnt_eq p hne
  · exact fun hs => absurd hs (by simp [hT])

/-! ## Changes of one entry -/

/-- **A store of `w` into the entry at `i`, `j` of `e`**, in a page table of `e`: what has to be
checked is the counting, and that `w` is clean. -/
lemma writeTable (h : Pages T n dirs m) (hn : m'.npage = m.npage)
    (hmem : m'.mem = (m.write t j w).mem) (ht : target T.own dirs m (.pde e i) = some t)
    (hj : j < 1024) (hclean : HasFlag w PTE_V → ptePpn w = ptePpn (pteOf (pteFrame w)))
    (hc : Counted (slots n) Slot.Excl (· ∈ T.pool) (T.strict = true)
      (Function.update (target T.own dirs m) (.pte e i j) ((validWord w).map pteFrame))
      (fun p => (m'.ppRef p).toNat) m'.pageFreeList) :
    Pages T n dirs m' := by
  have hsw : ∀ s, slotWord T.own dirs m' s =
      if s = .pte e i j then validWord w else slotWord T.own dirs m s := by
    intro s
    rw [← slotWord_write_table h.wellFormed hj ht s]
    exact congrFun (slotWord_congr fun f _ => by rw [hmem]) s
  have htp := h.counted.tgt_pool _ _ ht
  refine ⟨hn.trans h.npage_eq, ?_, ?_, ?_, ?_, h.live_lt⟩
  · rw [target_eq_update (by simp) hsw]
    exact hc
  · intro f hf
    have hne : f ≠ t := fun hc => hf (hc ▸ htp)
    rw [hmem, Pmap.write_mem_of_ne _ _ _ hne, h.fixed f hf]
  · intro e' d' he' i' hi' ho'
    have hne : d' ≠ t := fun hc => h.wellFormed.dir_ne_table ht (hc ▸ he')
    rw [hmem, Pmap.write_mem_of_ne _ _ _ hne, h.template e' d' he' i' hi' ho']
  · intro s w' hw'
    rw [hsw] at hw'
    split_ifs at hw' with hs
    · obtain ⟨hv, rfl⟩ := validWord_eq_some.mp hw'
      exact hclean hv
    · exact h.clean s w' hw'

/-- New flags for a mapped page. -/
lemma reflag (h : Pages T n dirs m) (ht : target T.own dirs m (.pde e i) = some t)
    (hj : j < 1024) (hold : target T.own dirs m (.pte e i j) = some (pteFrame w))
    (hv : HasFlag w PTE_V) (hclean : ptePpn w = ptePpn (pteOf (pteFrame w))) :
    Pages T n dirs (m.write t j w) := by
  refine h.writeTable rfl rfl ht hj (fun _ => hclean) ?_
  rw [validWord_of_valid hv, Option.map_some, ← hold, Function.update_eq_self]
  exact h.counted

/-- Mapping `pp` where nothing is mapped. -/
lemma fill (h : Pages T n dirs m) (ht : target T.own dirs m (.pde e i) = some t)
    (hj : j < 1024) (hempty : ¬ HasFlag (m.mem t j) PTE_V) (hpool : pp ∈ T.pool)
    (hfree : pp ∉ m.pageFreeList)
    (hcnt : (m.ppRef pp).toNat = refs (slots n) (target T.own dirs m) pp)
    (hlt : (m.ppRef pp).toNat < 65535) (hexcl : ∀ s, s.Excl → target T.own dirs m s ≠ some pp)
    (hown : i = PDX UVPT → ∀ s, target T.own dirs m s ≠ some pp)
    (hv : HasFlag w PTE_V) (hw : pteFrame w = pp) (hclean : ptePpn w = ptePpn (pteOf pp)) :
    Pages T n dirs ((m.addRef pp).write t j w) := by
  have hnone : target T.own dirs m (.pte e i j) = none := by
    rw [target, slotWord_pte_of_table hj ht, validWord_of_not_valid hempty, Option.map_none]
  obtain ⟨ho, d, he, -⟩ := target_eq_some_pde.mp ht
  refine h.writeTable rfl rfl ht hj (fun _ => hw ▸ hclean) ?_
  rw [validWord_of_valid hv, Option.map_some, hw]
  have hstep := h.counted.link (mem_slots_pte (h.live_lt e d he) (own_lt ho) hj) hnone hpool hfree
    hcnt hown hexcl
  rwa [← toNat_addRef hlt] at hstep

/-- Unmapping. -/
lemma unmap (h : Pages T n dirs m) (ht : target T.own dirs m (.pde e i) = some t)
    (hj : j < 1024) (hold : target T.own dirs m (.pte e i j) = some pp) :
    Pages T n dirs ((m.release pp).write t j 0#32) := by
  refine h.writeTable rfl rfl ht hj (by simp) ?_
  rw [validWord_zero, Option.map_none, Pmap.write_pageFreeList, release_free, Pmap.write_ppRef,
    toNat_release (h.ppRef_ne_zero hold)]
  exact h.counted.unlink hold

/-- A new page table, for an entry of the directory that has none. -/
lemma grow {rest : List ℕ} (h : Pages T n dirs m) (he : dirs e = some d) (ho : T.own i = true)
    (hnone : target T.own dirs m (.pde e i) = none) (hf : m.pageFreeList = t :: rest) :
    Pages T n dirs (m.grow d i t rest) ∧
      target T.own dirs (m.grow d i t rest) =
        Function.update (target T.own dirs m) (.pde e i) (some t) := by
  have hmem : t ∈ m.pageFreeList := by simp [hf]
  have hunref := h.counted.free_unref t hmem
  have hpool := h.counted.free_pool t hmem
  have hlt := T.lt_max hpool
  have hfits : Fits PTE_V t := fits_of_lt (by decide) t
  have hframe : pteFrame (pteOf t ||| PTE_V) = t := pteFrame_or hlt hfits
  have hsw := slotWord_grow h.wellFormed he ho hnone (fun ⟨s, _, hs⟩ => hunref s hs) hlt rest
  have htgt := target_eq_update (by simp) hsw
  rw [Option.map_some, hframe] at htgt
  have hdt : d ≠ t := fun hc => hunref (.dir e) (hc ▸ he)
  have hgmem : ∀ f, f ≠ t → f ≠ d → (m.grow d i t rest).mem f = m.mem f := by
    intro f hft hfd
    rw [Pmap.grow, Pmap.write_mem_of_ne _ _ _ hfd, Pmap.setRef_mem, Pmap.take_mem_of_ne _ _ hft]
  refine ⟨⟨h.npage_eq, ?_, ?_, ?_, ?_, h.live_lt⟩, htgt⟩
  · have hc := h.counted
    have hz : (m.ppRef t).toNat = 0 := hc.free_cnt t hmem
    rw [hf] at hc
    have hnot : t ∉ rest := (List.nodup_cons.mp hc.free_nodup).1
    have hstep := hc.alloc.link (mem_slots_pde (h.live_lt e d he) (own_lt ho)) hnone hpool hnot
      (by rw [hz, refs_eq_zero_iff.mpr fun s _ => hunref s]) (fun _ => hunref) fun s _ => hunref s
    have hcnt : (fun p => ((m.grow d i t rest).ppRef p).toNat) =
        Function.update (fun p => (m.ppRef p).toNat) t ((m.ppRef t).toNat + 1) := by
      funext p
      simp only [Pmap.grow, Pmap.write_ppRef, Pmap.setRef_ppRef, Pmap.take_ppRef,
        Function.update_apply, hz]
      split_ifs <;> rfl
    rw [htgt, hcnt]
    exact hstep
  · intro f hfp
    rw [hgmem f (fun hc => hfp (hc ▸ hpool)) fun hc => hfp (hc ▸ h.counted.tgt_pool (.dir e) d he),
      h.fixed f hfp]
  · intro e' d' he' i' hi' ho'
    have hne : d' ≠ t := fun hc => hunref (.dir e') (hc ▸ he')
    have hne' : ¬ (d' = d ∧ i' = i) := by
      rintro ⟨-, rfl⟩
      rw [ho] at ho'
      simp at ho'
    rw [Pmap.grow, Pmap.write_mem, if_neg hne', Pmap.setRef_mem, Pmap.take_mem_of_ne _ _ hne,
      h.template e' d' he' i' hi' ho']
  · intro s w hw
    rw [hsw] at hw
    split_ifs at hw with hs
    · cases hw
      rw [hframe]
      exact (ptePpn_or_iff t PTE_V).mpr hfits
    · exact h.clean s w hw

end Pages

/-! ## `page_insert` and `page_remove` -/

/-- The page number of the inserted word, over a clean entry or none: the old page's flags make no
difference. -/
lemma ptePpn_insertedWord {old : Option Word}
    (hold : ∀ w, old = some w → ptePpn w = ptePpn (pteOf (pteFrame w))) :
    ptePpn (insertedWord old pp perm) = ptePpn (pteOf pp ||| entryFlags perm) := by
  cases old with
  | none => rfl
  | some w =>
      rw [insertedWord]
      split_ifs with h
      · -- the old page number is that of `pp`
        have hw := hold w rfl
        rw [h] at hw
        rw [ptePpn, BitVec.ushiftRight_or_distrib, Bits.ushiftRight_and_not_low low10, ← ptePpn, hw,
          ptePpn, ← BitVec.ushiftRight_or_distrib, ptePpn]
      · rfl

/-- The inserted word is clean and names the page. -/
lemma insertedWord_clean {old : Option Word} (hpp : pp < 0x80000) (hfits : Fits perm pp)
    (hold : ∀ w, old = some w → ptePpn w = ptePpn (pteOf (pteFrame w))) :
    ptePpn (insertedWord old pp perm) = ptePpn (pteOf pp) ∧
      pteFrame (insertedWord old pp perm) = pp := by
  have hppn := (ptePpn_insertedWord hold).trans
    ((ptePpn_or_iff pp (entryFlags perm)).mpr (fits_entryFlags.mpr hfits))
  exact ⟨hppn, (pteFrame_congr hppn).trans (pteFrame_pteOf hpp)⟩

namespace Pages

/-- **A successful `page_insert` keeps the invariant**, for a page that is counted exactly, is not
on the free list and no exclusive slot names, with flags that fit it. -/
lemma insert (h : Pages T n dirs m) (he : dirs e = some d) (ho : T.own (PDX va) = true)
    (hpool : pp ∈ T.pool) (hfits : Fits perm pp) (hfree : pp ∉ m.pageFreeList)
    (hcnt : (m.ppRef pp).toNat = refs (slots n) (target T.own dirs m) pp)
    (hlt : (m.ppRef pp).toNat < 65535) (hexcl : ∀ s, s.Excl → target T.own dirs m s ≠ some pp)
    (hown : PDX va = PDX UVPT → ∀ s, target T.own dirs m s ≠ some pp)
    (hcase : InsertCase m d pp va perm m') : Pages T n dirs m' := by
  have hnew : ptePpn (pteOf pp ||| entryFlags perm) = ptePpn (pteOf pp) ∧
      pteFrame (pteOf pp ||| entryFlags perm) = pp :=
    @insertedWord_clean _ _ none (T.lt_max hpool) hfits (by simp)
  have hv : HasFlag (pteOf pp ||| entryFlags perm) PTE_V := by simp
  cases hcase with
  | @reflag t ht hval hpp =>
      have ht' := (tableAt_iff ho he).mp ht
      have hold : target T.own dirs m (.pte e (PDX va) (PTX va)) = some pp :=
        target_pte_eq_some.mpr ⟨t, ht', PTX_lt va, hval, hpp⟩
      have hsw : slotWord T.own dirs m (.pte e (PDX va) (PTX va)) = some (m.mem t (PTX va)) := by
        rw [slotWord_pte_of_table (PTX_lt va) ht', validWord_of_valid hval]
      have hclean := insertedWord_clean (T.lt_max hpool) hfits
        (fun w hw => h.clean _ w (hsw.trans hw))
      rw [insertedWord, if_pos hpp] at hclean
      refine h.reflag ht' (PTX_lt va) ?_ (by simp) ?_
      · rw [hold, hclean.2]
      · rw [hclean.2, hclean.1]
  | @replace t q ht hval hq hqlt hne hr =>
      have ht' := (tableAt_iff ho he).mp ht
      have hold : target T.own dirs m (.pte e (PDX va) (PTX va)) = some q :=
        target_pte_eq_some.mpr ⟨t, ht', PTX_lt va, hval, hq⟩
      have h₁ := h.unmap ht' (PTX_lt va) hold
      set m₁ := (m.release q).write t (PTX va) 0#32 with hm₁
      have hsw := slotWord_write_table (m := m.release q) (w := 0#32) (h.wellFormed.congr rfl)
        (PTX_lt va) ht'
      have htgt : target T.own dirs m₁ = Function.update (target T.own dirs m)
          (.pte e (PDX va) (PTX va)) none := target_eq_update (by simp) hsw
      have hsub : ∀ s p, target T.own dirs m₁ s = some p → target T.own dirs m s = some p := by
        intro s p hs
        rw [htgt, Function.update_apply] at hs
        split_ifs at hs
        exact hs
      have hmem : pp ∉ m₁.pageFreeList := by
        rw [hm₁, Pmap.write_pageFreeList, release_free]
        split_ifs
        · simp [Ne.symm hne, hfree]
        · exact hfree
      have href : m₁.ppRef pp = m.ppRef pp := by
        rw [hm₁, Pmap.write_ppRef, Pmap.release_ppRef, Function.update_of_ne (Ne.symm hne)]
      have hrefs : refs (slots n) (target T.own dirs m₁) pp =
          refs (slots n) (target T.own dirs m) pp := by
        rw [htgt]
        have := refs_update_none (q := pp) (h.counted.mem_of_tgt hold) hold
        rwa [if_neg (Ne.symm hne), add_zero] at this
      have ht₁ : target T.own dirs m₁ (.pde e (PDX va)) = some t := by
        rw [htgt, Function.update_of_ne (by simp), ht']
      have h₂ := h₁.fill ht₁ (PTX_lt va) (by simp [hm₁]) hpool hmem (by rw [href, hrefs, hcnt])
        (href ▸ hlt) (fun s hs hc => hexcl s hs (hsub s pp hc))
        (fun hi s hc => hown hi s (hsub s pp hc)) hv hnew.2 hnew.1
      rwa [hm₁, Pmap.addRef, Pmap.setRef_write, Pmap.write_write] at h₂
  | @fill t ht hval =>
      have ht' := (tableAt_iff ho he).mp ht
      exact h.fill ht' (PTX_lt va) hval hpool hfree hcnt hlt hexcl hown hv hnew.2 hnew.1
  | @grow t rest hval hf =>
      have hnone : target T.own dirs m (.pde e (PDX va)) = none := by
        rw [target, slotWord_pde ho he, ← Pmap.pde, validWord_of_not_valid hval, Option.map_none]
      obtain ⟨h₁, htgt⟩ := h.grow he ho hnone hf
      have hmem : t ∈ m.pageFreeList := by simp [hf]
      have hne : pp ≠ t := fun hc => hfree (hc ▸ hmem)
      have hsub : ∀ s, target T.own dirs (m.grow d (PDX va) t rest) s = some pp →
          target T.own dirs m s = some pp := by
        intro s hs
        rw [htgt, Function.update_apply] at hs
        split_ifs at hs
        · exact absurd (Option.some.inj hs) (Ne.symm hne)
        · exact hs
      have href : (m.grow d (PDX va) t rest).ppRef pp = m.ppRef pp := by
        simp [Pmap.grow, hne]
      have hrefs : refs (slots n) (target T.own dirs (m.grow d (PDX va) t rest)) pp =
          refs (slots n) (target T.own dirs m) pp := by
        have hs := mem_slots_pde (h.live_lt e d he) (own_lt ho)
        rw [htgt, refs_update_some hs hnone, if_neg hne, add_zero]
      have ht₁ : target T.own dirs (m.grow d (PDX va) t rest) (.pde e (PDX va)) = some t := by
        rw [htgt, Function.update_self]
      have hdt : t ≠ d := fun hc => h.counted.free_unref t hmem (.dir e) (hc ▸ he)
      refine h₁.fill ht₁ (PTX_lt va) ?_ hpool (fun hc => hfree (by simp [hf]; exact .inr hc))
        (by rw [href, hrefs, hcnt]) (href ▸ hlt) (fun s hs hc => hexcl s hs (hsub s hc))
        (fun hi s hc => hown hi s (hsub s hc)) hv hnew.2 hnew.1
      simp [Pmap.grow, Pmap.write_mem_of_ne _ _ _ hdt]

/-- **`page_remove` keeps the invariant.** -/
lemma remove (h : Pages T n dirs m) (he : dirs e = some d) (ho : T.own (PDX va) = true)
    (hcase : RemoveCase m d va m') : Pages T n dirs m' := by
  cases hcase with
  | absent => exact h
  | @removed t ht hval hr =>
      have ht' := (tableAt_iff ho he).mp ht
      exact h.unmap ht' (PTX_lt va) (target_pte_eq_some.mpr ⟨t, ht', PTX_lt va, hval, rfl⟩)

end Pages

/-! ## Page tables and directories come and go -/

/-- Clearing the directory entry of an empty page table empties one slot. -/
lemma slotWord_clear_dir {own : ℕ → Bool} (hwf : WellFormed own dirs m) (he : dirs e = some d)
    (ht : target own dirs m (.pde e i) = some t)
    (hempty : ∀ j < 1024, ¬ HasFlag (m.mem t j) PTE_V) (s : Slot) :
    slotWord own dirs (m.write d i 0#32) s =
      if s = .pde e i then none else slotWord own dirs m s := by
  have ho := (target_eq_some_pde.mp ht).1
  have hnone : target own dirs (m.write d i 0#32) (.pde e i) = none := by
    rw [target, slotWord_write_pde hwf he ho, if_pos rfl, validWord_zero, Option.map_none]
  rw [← validWord_zero]
  refine slotWord_write_entry hwf he ho (fun j hj => ?_) s
  rw [slotWord_pte_of_no_table hnone, slotWord_pte_of_table hj ht,
    validWord_of_not_valid (hempty j hj)]

/-- The env a slot belongs to. -/
def Slot.env : Slot → ℕ
  | .dir e => e
  | .pde e _ => e
  | .pte e _ _ => e

lemma slotWord_of_dirs_none {own : ℕ → Bool} (he : dirs s.env = none) :
    slotWord own dirs m s = none := by
  cases s with
  | dir e => rfl
  | pde e i => simp [slotWord, show dirs e = none from he]
  | pte e i j => simp [slotWord, show dirs e = none from he]

/-- Slots of the other envs do not see a change of one env's directory. -/
lemma slotWord_update_dirs {own : ℕ → Bool} {o : Option ℕ} (hs : s.env ≠ e) :
    slotWord own (Function.update dirs e o) m s = slotWord own dirs m s := by
  cases s with
  | dir e' => rfl
  | pde e' i =>
      have hne : e' ≠ e := hs
      simp [slotWord, hne]
  | pte e' i j =>
      have hne : e' ≠ e := hs
      simp [slotWord, hne]

lemma target_update_dirs {own : ℕ → Bool} {o : Option ℕ} (hs : s.env ≠ e) :
    target own (Function.update dirs e o) m s = target own dirs m s := by
  cases s with
  | dir e' =>
      have hne : e' ≠ e := hs
      simp [target, hne]
  | pde e' i => rw [target, target, slotWord_update_dirs hs]
  | pte e' i j => rw [target, target, slotWord_update_dirs hs]

lemma target_of_dirs_none {own : ℕ → Bool} (he : dirs s.env = none) :
    target own dirs m s = none := by
  cases s with
  | dir e => exact he
  | pde e i => rw [target, slotWord_of_dirs_none he, Option.map_none]
  | pte e i j => rw [target, slotWord_of_dirs_none he, Option.map_none]

/-- The directory of `e` is given back: of the targets `tgt`, where `e` has no others, one is gone.
-/
lemma target_dropDir {own : ℕ → Bool} {tgt : Slot → Option ℕ}
    (hnone : ∀ s, s.env = e → s ≠ .dir e → tgt s = none)
    (hold : ∀ s, s.env ≠ e → tgt s = target own dirs m s) (d : ℕ) :
    target own (Function.update dirs e none) (m.release d) = Function.update tgt (.dir e) none := by
  funext s
  by_cases hs : s.env = e
  · rw [target_of_dirs_none (by rw [hs, Function.update_self]), Function.update_apply]
    split_ifs with hsd
    · rfl
    · exact (hnone s hs hsd).symm
  · have hsd : s ≠ .dir e := fun hc => hs (hc ▸ rfl)
    rw [target_update_dirs hs, Function.update_of_ne hsd, hold s hs]
    exact congrFun (target_congr rfl) s

namespace Pages

/-- Giving an empty page table back. -/
lemma dropTable (h : Pages T n dirs m) (he : dirs e = some d)
    (ht : target T.own dirs m (.pde e i) = some t)
    (hempty : ∀ j < 1024, ¬ HasFlag (m.mem t j) PTE_V) :
    Pages T n dirs ((m.write d i 0#32).release t) ∧
      target T.own dirs ((m.write d i 0#32).release t) =
        Function.update (target T.own dirs m) (.pde e i) none := by
  have ho := (target_eq_some_pde.mp ht).1
  have hsw : ∀ s, slotWord T.own dirs ((m.write d i 0#32).release t) s =
      if s = .pde e i then none else slotWord T.own dirs m s :=
    slotWord_clear_dir h.wellFormed he ht hempty
  have htgt := target_eq_update (by simp) hsw
  rw [Option.map_none] at htgt
  refine ⟨⟨h.npage_eq, ?_, ?_, ?_, ?_, h.live_lt⟩, htgt⟩
  · have hr : (m.write d i 0#32).ppRef t ≠ 0#16 := h.ppRef_ne_zero ht
    rw [htgt, release_free, toNat_release hr]
    exact h.counted.unlink ht
  · intro f hf
    have hne : f ≠ d := fun hc => hf (hc ▸ h.counted.tgt_pool (.dir e) d he)
    rw [Pmap.release_mem, Pmap.write_mem_of_ne _ _ _ hne, h.fixed f hf]
  · intro e' d' he' i' hi' ho'
    have hne : ¬ (d' = d ∧ i' = i) := by
      rintro ⟨-, rfl⟩
      rw [ho] at ho'
      simp at ho'
    rw [Pmap.release_mem, Pmap.write_mem, if_neg hne, h.template e' d' he' i' hi' ho']
  · intro s w hw
    rw [hsw] at hw
    split_ifs at hw
    exact h.clean s w hw

/-- Giving the directory of `e` back, once its page tables below `UTOP` are gone.  What hangs off
the entry at `UVPT` is forgotten. -/
lemma dropDir (h : Pages T n dirs m) (he : dirs e = some d)
    (hempty : ∀ i < PDX UTOP, target T.own dirs m (.pde e i) = none) :
    Pages T n (Function.update dirs e none) (m.release d) := by
  -- the slots of `e` other than the directory are emptied without counting
  let tgt₁ : Slot → Option ℕ := fun s =>
    if s.env = e ∧ s ≠ .dir e then none else target T.own dirs m s
  have hforget : Counted (slots n) Slot.Excl (· ∈ T.pool) (T.strict = true) tgt₁
    (fun p => (m.ppRef p).toNat)
      m.pageFreeList := by
    -- below `UTOP` nothing is left, so what is forgotten belongs to the entry at `UVPT`
    have hpde : ∀ i, (T.gap = true → i ≠ PDX UVPT) → target T.own dirs m (.pde e i) = none := by
      intro i hi
      cases ht : target T.own dirs m (.pde e i) with
      | none => rfl
      | some t =>
          have ho := (target_eq_some_pde.mp ht).1
          rw [Template.own, decide_eq_true_iff] at ho
          rw [← ht, hempty i (ho.resolve_right fun hc => hi hc.1 hc.2)]
    have hpte : ∀ i j, (T.gap = true → i ≠ PDX UVPT) →
        target T.own dirs m (.pte e i j) = none := by
      intro i j hi
      rw [target, slotWord_pte_of_no_table (hpde i hi), Option.map_none]
    refine h.counted.forget (fun s => ?_) fun hT => ?_
    · by_cases hs : s.env = e ∧ s ≠ .dir e
      · simp only [tgt₁, if_pos hs, true_and]
        cases s with
        | dir e' => exact .inr trivial
        | pde e' i => exact .inr trivial
        | pte e' i j =>
            obtain rfl : e' = e := hs.1
            by_cases hi : i = PDX UVPT
            · exact .inr hi
            · exact .inl (hpte i j fun _ => hi).symm
      · left
        simp only [tgt₁, if_neg hs]
    · have hgap : ∀ i : ℕ, T.gap = true → i ≠ PDX UVPT := by
        intro i hc
        rw [T.strict_gap hT] at hc
        exact absurd hc (by decide)
      funext s
      by_cases hs : s.env = e ∧ s ≠ .dir e
      · simp only [tgt₁, if_pos hs]
        obtain ⟨rfl, hne⟩ := hs
        cases s with
        | dir e' => exact absurd rfl hne
        | pde e' i => exact (hpde i (hgap i)).symm
        | pte e' i j => exact (hpte i j (hgap i)).symm
      · simp only [tgt₁, if_neg hs]
  have hdir : tgt₁ (.dir e) = some d := by
    simp only [tgt₁, ne_eq, not_true_eq_false, and_false, if_false]
    exact he
  have htgt : target T.own (Function.update dirs e none) (m.release d) =
      Function.update tgt₁ (.dir e) none :=
    target_dropDir (fun s hs hsd => by simp [tgt₁, hs, hsd]) (fun s hs => by simp [tgt₁, hs]) d
  have hlive : ∀ e' d', Function.update dirs e none e' = some d' → dirs e' = some d' := by
    intro e' d' he'
    rw [Function.update_apply] at he'
    split_ifs at he'
    exact he'
  refine ⟨h.npage_eq, ?_, h.fixed, ?_, ?_, fun e' d' he' => h.live_lt e' d' (hlive e' d' he')⟩
  · rw [htgt, release_free, toNat_release (h.ppRef_ne_zero (s := .dir e) he)]
    exact hforget.unlink hdir
  · exact fun e' d' he' => h.template e' d' (hlive e' d' he')
  · intro s w hw
    by_cases hs : s.env = e
    · rw [slotWord_of_dirs_none (by rw [hs, Function.update_self])] at hw
      simp at hw
    · rw [slotWord_update_dirs hs] at hw
      exact h.clean s w hw

/-- A new directory for `e`: a page off the free list, counted once, with the template's entries
and nothing else. -/
lemma newDir {rest : List ℕ} (h : Pages T n dirs m) (he : dirs e = none) (hen : e < n)
    (hf : m.pageFreeList = d :: rest) (hn : m'.npage = m.npage) (hf' : m'.pageFreeList = rest)
    (hr : m'.ppRef = Function.update m.ppRef d (m.ppRef d + 1#16))
    (hmem : ∀ f, f ≠ d → m'.mem f = m.mem f) (hown : ∀ i, T.own i = true → m'.mem d i = 0#32)
    (htpl : ∀ i < 1024, T.own i = false → m'.mem d i = T.entry i) :
    Pages T n (Function.update dirs e (some d)) m' := by
  have hd : d ∈ m.pageFreeList := by simp [hf]
  have hunref := h.counted.free_unref d hd
  have hpool := h.counted.free_pool d hd
  have hne : ∀ e' d', e' ≠ e → Function.update dirs e (some d) e' = some d' →
      dirs e' = some d' ∧ d' ≠ d := by
    intro e' d' hee he'
    rw [Function.update_of_ne hee] at he'
    exact ⟨he', fun hc => hunref (.dir e') (hc ▸ he')⟩
  have hsw : ∀ s, slotWord T.own (Function.update dirs e (some d)) m' s =
      slotWord T.own dirs m s := by
    intro s
    by_cases hs : s.env = e
    · have hnone : slotWord T.own dirs m s = none := slotWord_of_dirs_none (by rw [hs, he])
      rw [hnone]
      cases s with
      | dir e' => rfl
      | pde e' i =>
          obtain rfl : e' = e := hs
          rw [slotWord]
          split_ifs with ho
          · rw [Function.update_self, Option.bind_some, hown i ho, validWord_zero]
          · rfl
      | pte e' i j =>
          obtain rfl : e' = e := hs
          rw [slotWord]
          split_ifs with ho
          · rw [Function.update_self, Option.bind_some, hown i ho.1, validWord_zero,
              Option.bind_none]
          · rfl
    · rw [slotWord_update_dirs hs]
      refine congrFun (slotWord_congr ?_) s
      rintro f ⟨s', -, hs'⟩
      exact hmem f fun hc => hunref s' (hc ▸ hs')
  have htgt : target T.own (Function.update dirs e (some d)) m' =
      Function.update (target T.own dirs m) (.dir e) (some d) := by
    funext s
    cases s with
    | dir e' =>
        by_cases hee : e' = e
        · subst hee
          simp [target]
        · simp [target, hee]
    | pde e' i => rw [Function.update_of_ne (by simp), target, target, hsw]
    | pte e' i j => rw [Function.update_of_ne (by simp), target, target, hsw]
  refine ⟨hn.trans h.npage_eq, ?_, ?_, ?_, ?_, ?_⟩
  · have hc := h.counted
    have hz : (m.ppRef d).toNat = 0 := hc.free_cnt d hd
    rw [hf] at hc
    have hnot : d ∉ rest := (List.nodup_cons.mp hc.free_nodup).1
    have hstep := hc.alloc.link (mem_slots_dir hen)
      (show target T.own dirs m (.dir e) = none from he)
      hpool hnot (by rw [hz, refs_eq_zero_iff.mpr fun s _ => hunref s]) (fun _ => hunref)
      fun s _ => hunref s
    have hcnt := @toNat_addRef m d (by omega)
    rw [Pmap.addRef_ppRef, ← hr] at hcnt
    rw [htgt, hf', hcnt]
    exact hstep
  · intro f hfp
    rw [hmem f fun hc => hfp (hc ▸ hpool), h.fixed f hfp]
  · intro e' d' he' i hi ho
    by_cases hee : e' = e
    · subst hee
      rw [Function.update_self, Option.some.injEq] at he'
      rw [← he', htpl i hi ho]
    · obtain ⟨he'', hdd⟩ := hne e' d' hee he'
      rw [hmem d' hdd, h.template e' d' he'' i hi ho]
  · intro s w hw
    rw [hsw] at hw
    exact h.clean s w hw
  · intro e' d' he'
    by_cases hee : e' = e
    · exact hee ▸ hen
    · exact h.live_lt e' d' (hne e' d' hee he').1

end Pages

end

end MosRv
