import MosRv.TrapInv

/-!
# The kernel invariant holds after boot

`page_init` and `env_init` lead to a state with `KInv` for a `Template` read off that state: its
pool is what is then on `page_free_list`.  The template directory maps `pages[]` and `envs[]`
read-only, in page tables taken from the free list; that it does nothing else is an invariant of
the loop in `map_segment` (`TemplateDir`).

Creating an env keeps the invariant, and so does a store by user code: `KInv.wp_event`.
-/

namespace MosRv

open RefGraph

/-! ## `page_init` -/

lemma wp_pageInit (m : Pmap) (nUsed : ℕ) :
    Prog.wp (pageInit nUsed) m
      (fun _ m' => m' = { m with
        ppRef := fun p => if p < nUsed then 1#16 else m.ppRef p
        pageFreeList := (List.range' nUsed (m.npage - nUsed)).reverse })
      (fun _ _ => False) (fun _ => False) := by
  rw [pageInit, Prog.wp_bind, Prog.wp_modify, Prog.wp_bind]
  refine (Prog.wp_forRange (fun i m' => m' = { m with
    ppRef := fun p => if p < i then 1#16 else m.ppRef p, pageFreeList := [] }) nUsed 0
    (by simp) ?_).mono ?_ (fun _ _ hf => hf) fun _ hp => hp
  · rintro i m' - - rfl
    rw [Prog.wp_modify, Pmap.setRef]
    congr 1
    funext p
    rw [Function.update_apply]
    by_cases hp : p = i
    · simp [hp]
    · simp only [hp, if_false]
      congr 1
      apply propext
      omega
  · rintro - m' rfl
    rw [Prog.wp_bind, Prog.wp_get]
    refine (Prog.wp_forRange (fun i m' => m' = { m with
      ppRef := fun p => if p < nUsed then 1#16 else m.ppRef p
      pageFreeList := (List.range' nUsed (i - nUsed)).reverse }) (m.npage - nUsed) nUsed
      (by simp) ?_).mono ?_ (fun _ _ hf => hf) fun _ hp => hp
    · rintro i m' hi - rfl
      rw [Prog.wp_modify, show i + 1 - nUsed = i - nUsed + 1 by omega, List.range'_1_concat,
        List.reverse_append, show nUsed + (i - nUsed) = i by omega]
      rfl
    · rintro - m' rfl
      rw [Nat.add_sub_cancel_left]

/-! ## The template directory -/

/-- The family of one directory. -/
def onlyDir (b e : ℕ) : Option ℕ := if e = 0 then some b else none

/-- **The invariant of `map_segment`** on the directory `b`: its page tables are pages off the free
list, and they map boot pages, read-only. -/
structure TemplateDir (nUsed b : ℕ) (m : Pmap) : Prop where
  wf : WellFormed userHalf (onlyDir b) m
  unused : FreeUnused userHalf (onlyDir b) m
  free_nodup : m.pageFreeList.Nodup
  free_ref : ∀ p ∈ m.pageFreeList, m.ppRef p = 0#16 ∧ nUsed ≤ p
  table_ge : ∀ s f, s.IsTable → target userHalf (onlyDir b) m s = some f → nUsed ≤ f
  boot : ∀ e i j w, slotWord userHalf (onlyDir b) m (.pte e i j) = some w →
    pteFrame w < nUsed ∧ ¬ HasFlag w PTE_W

section Template

variable {nUsed b pp : ℕ} {m m' : Pmap} {va perm : Word}

lemma userHalf_of_lt (h : va < ULIM) : userHalf (PDX va) = true := by
  rw [userHalf, decide_eq_true_iff]
  exact (lt_ULIM_iff va).mp h

/-- Flags in the low ten bits are read off these. -/
lemma hasFlag_iff_pteBits {w flag : Word} (h : 0x3FF#32 &&& flag = flag) :
    HasFlag w flag ↔ HasFlag (pteBits w) flag := by
  rw [HasFlag, HasFlag, pteBits, BitVec.and_assoc, h]

/-- A mapping of a boot page at an empty place keeps the invariant and takes at most one page. -/
lemma TemplateDir.insert (h : TemplateDir nUsed b m) (hb : nUsed ≤ m.npage) (hva : va < ULIM)
    (hpp : pp < nUsed) (hperm : perm < 0x400) (hW : ¬ HasFlag (entryFlags perm) PTE_W)
    (hnone : m.entryAt b va = none) (hcase : InsertCase m b pp va perm m') :
    TemplateDir nUsed b m' ∧ m.pageFreeList.length ≤ m'.pageFreeList.length + 1 ∧
      m'.npage = m.npage := by
  have ho := userHalf_of_lt hva
  have he : onlyDir b 0 = some b := rfl
  have hlt : pp < 0x80000 := (hpp.trans_le hb).trans_le h.unused.npage_le
  have hfree : pp ∉ m.pageFreeList := fun hc => absurd (h.free_ref pp hc).2 (by omega)
  have htab : ¬ IsTableFrame userHalf (onlyDir b) m pp :=
    fun ⟨s, hs, hst⟩ => absurd (h.table_ge s pp hs hst) (by omega)
  have hframe : ∀ old, pteFrame (insertedWord old pp perm) = pp :=
    fun old => (insertedWord_spec old hlt hperm).1
  have hwf := hcase.wellFormed h.wf h.unused he ho hframe htab hfree
  have hsw : slotWord userHalf (onlyDir b) m (.pte 0 (PDX va) (PTX va)) = none := by
    rw [← entryAt_eq_slotWord ho he, hnone]
  have hnew : pteFrame (pteOf pp ||| entryFlags perm) < nUsed ∧
      ¬ HasFlag (pteOf pp ||| entryFlags perm) PTE_W := by
    obtain ⟨hf, hbits⟩ := insertedWord_spec none hlt hperm
    rw [insertedWord] at hf hbits
    rw [hf, hasFlag_iff_pteBits (by decide), hbits]
    exact ⟨hpp, hW⟩
  have hnot : ∀ t, m.TableAt b va t → ¬ HasFlag (m.mem t (PTX va)) PTE_V := by
    intro t ht hv
    rw [slotWord_pte_of_table (PTX_lt va) ((tableAt_iff ho he).mp ht), validWord_of_valid hv] at hsw
    simp at hsw
  cases hcase with
  | @reflag t ht hv => exact absurd hv (hnot t ht)
  | @replace t q ht hv => exact absurd hv (hnot t ht)
  | @fill t ht hv =>
      have ht' := (tableAt_iff ho he).mp ht
      have hstep := fun s => slotWord_write_table (m := m.addRef pp) (j := PTX va)
        (w := pteOf pp ||| entryFlags perm) (s := s) (h.wf.congr rfl) (PTX_lt va) ht'
      have htgt := target_of_slotWord (by simp) hstep
      simp only [validWord_entryFlags] at hstep htgt
      refine ⟨⟨hwf, ⟨h.unused.npage_le, h.unused.lt_npage, ?_⟩, h.free_nodup, ?_, ?_, ?_⟩,
        Nat.le_succ _, rfl⟩
      · intro p hp s hs
        rw [htgt] at hs
        split_ifs at hs
        · rw [Option.map_some, Option.some.injEq] at hs
          exact absurd (h.free_ref p hp).2 (by omega)
        · exact h.unused.unused p hp s hs
      · intro p hp
        have hne : p ≠ pp := fun hc => hfree (hc ▸ hp)
        rw [Pmap.write_ppRef, Pmap.addRef_ppRef, Function.update_of_ne hne]
        exact h.free_ref p hp
      · intro s f hs hsf
        rw [htgt] at hsf
        split_ifs at hsf with heq
        · rw [heq] at hs
          exact absurd hs id
        · exact h.table_ge s f hs hsf
      · intro e i j w hw
        rw [hstep] at hw
        split_ifs at hw
        · cases hw
          exact hnew
        · exact h.boot e i j w hw
  | @grow t rest hv hl =>
      have hnone' : target userHalf (onlyDir b) m (.pde 0 (PDX va)) = none := by
        rw [target, slotWord_pde ho he, ← Pmap.pde, validWord_of_not_valid hv, Option.map_none]
      obtain ⟨t', rest', hl', -, -, -, -, hstep⟩ :=
        (@InsertCase.grow m b pp va perm t rest hv hl).slotWord_of_no_table h.wf
          h.unused he ho hnone'
      cases hl.symm.trans hl'
      have htlt : t < 0x80000 := (h.unused.lt_npage t (by simp [hl])).trans_le h.unused.npage_le
      have hnd := h.free_nodup
      rw [hl] at hnd
      obtain ⟨htr, hnd⟩ := List.nodup_cons.mp hnd
      have hmem : ∀ p ∈ rest, p ∈ m.pageFreeList := fun p hp => by simp [hl, hp]
      have hframe_t : pteFrame (pteOf t ||| PTE_V) = t :=
        pteFrame_or htlt (fits_of_lt (by decide) t)
      set m'' := ((m.grow b (PDX va) t rest).addRef pp).write t (PTX va)
        (pteOf pp ||| entryFlags perm) with hm''
      have htgt : ∀ s f, target userHalf (onlyDir b) m'' s = some f →
          (s = .pte 0 (PDX va) (PTX va) ∧ f < nUsed) ∨ (s = .pde 0 (PDX va) ∧ f = t) ∨
            target userHalf (onlyDir b) m s = some f := by
        intro s f hs
        cases s with
        | dir e => exact .inr (.inr hs)
        | pde e i =>
            rw [target, hstep, if_neg (by simp)] at hs
            split_ifs at hs with heq
            · rw [Option.map_some, hframe_t, Option.some.injEq] at hs
              exact .inr (.inl ⟨heq, hs.symm⟩)
            · exact .inr (.inr hs)
        | pte e i j =>
            rw [target, hstep] at hs
            simp only [reduceCtorEq, if_false] at hs
            split_ifs at hs with heq
            · rw [Option.map_some, Option.some.injEq] at hs
              exact .inl ⟨heq, hs ▸ hnew.1⟩
            · exact .inr (.inr hs)
      refine ⟨⟨hwf, ⟨h.unused.npage_le, fun p hp => h.unused.lt_npage p (hmem p hp), ?_⟩,
        hnd, ?_, ?_,
        ?_⟩, by simp [hl, hm'', Pmap.grow], rfl⟩
      · intro p hp s hs
        rcases htgt s p hs with ⟨-, hf⟩ | ⟨-, rfl⟩ | hf
        · exact absurd (h.free_ref p (hmem p hp)).2 (by omega)
        · exact htr hp
        · exact h.unused.unused p (hmem p hp) s hf
      · intro p hp
        have hne : p ≠ pp := fun hc => hfree (hc ▸ hmem p hp)
        have hne' : p ≠ t := fun hc => htr (hc ▸ hp)
        have href : m''.ppRef p = m.ppRef p := by simp [hm'', Pmap.grow, hne, hne']
        rw [href]
        exact h.free_ref p (hmem p hp)
      · intro s f hs hsf
        rcases htgt s f hsf with ⟨rfl, -⟩ | ⟨-, rfl⟩ | hf
        · exact absurd hs id
        · exact (h.free_ref f (by simp [hl])).2
        · exact h.table_ge s f hs hf
      · intro e i j w hw
        rw [hstep] at hw
        simp only [reduceCtorEq, if_false] at hw
        split_ifs at hw
        · cases hw
          exact hnew
        · exact h.boot e i j w hw

/-- Memory below the first free page, and the order of the free list. -/
structure SparesBoot (nUsed : ℕ) (m m' : Pmap) : Prop where
  mem : ∀ f < nUsed, m'.mem f = m.mem f
  free : m'.pageFreeList <:+ m.pageFreeList

lemma SparesBoot.refl (nUsed : ℕ) (m : Pmap) :
    SparesBoot nUsed m m := ⟨fun _ _ => rfl, List.suffix_rfl⟩

lemma SparesBoot.trans {m'' : Pmap} (h : SparesBoot nUsed m m') (h' : SparesBoot nUsed m' m'') :
    SparesBoot nUsed m m'' :=
  ⟨fun f hf => (h'.mem f hf).trans (h.mem f hf), h'.free.trans h.free⟩

/-- Such a mapping writes to no page below the first free one, and takes the head of the free list
or nothing. -/
lemma TemplateDir.insert_spares (h : TemplateDir nUsed b m) (hva : va < ULIM)
    (hnone : m.entryAt b va = none) (hcase : InsertCase m b pp va perm m') :
    SparesBoot nUsed m m' := by
  have ho := userHalf_of_lt hva
  have he : onlyDir b 0 = some b := rfl
  have htable : ∀ t, m.TableAt b va t → nUsed ≤ t := fun t ht =>
    h.table_ge (.pde 0 (PDX va)) t trivial ((tableAt_iff ho he).mp ht)
  constructor
  · intro f hf
    funext i
    refine hcase.mem_eq (fun ht => absurd (htable f ht) (by omega)) (fun hfree => ?_) fun hfb => ?_
    · exact absurd (h.free_ref f hfree).2 (by omega)
    · exact absurd (h.table_ge (.dir 0) b trivial rfl) (by omega)
  · cases hcase with
    | reflag => exact List.suffix_rfl
    | replace ht hv =>
        have hsw : slotWord userHalf (onlyDir b) m (.pte 0 (PDX va) (PTX va)) = none := by
          rw [← entryAt_eq_slotWord ho he, hnone]
        rw [slotWord_pte_of_table (PTX_lt va) ((tableAt_iff ho he).mp ht),
          validWord_of_valid hv] at hsw
        exact absurd hsw nofun
    | fill => exact List.suffix_rfl
    | @grow t rest hv hl =>
        rw [hl]
        exact List.suffix_cons t rest

lemma page2pa_add {f i : ℕ} (h : f + i < 0x80000) :
    page2pa f + BitVec.ofNat 32 (i * 4096) = page2pa (f + i) := by
  rw [← BitVec.toNat_inj, BitVec.toNat_add, BitVec.toNat_ofNat, page2pa_toNat (by omega),
    page2pa_toNat h]
  omega

lemma VPN_add {i n : ℕ} (hal : va.toNat % 4096 = 0) (hlt : va.toNat + n * 4096 ≤ ULIM.toNat)
    (hi : i < n) : (VPN (va + BitVec.ofNat 32 (i * 4096))).toNat = (VPN va).toNat + i ∧
      va + BitVec.ofNat 32 (i * 4096) < ULIM := by
  rw [ULIM_toNat] at hlt
  rw [VPN_toNat, VPN_toNat, BitVec.lt_def, BitVec.toNat_add, BitVec.toNat_ofNat, ULIM_toNat]
  omega

/-- **`map_segment`** over an empty range of addresses, of boot pages, read-only. -/
lemma TemplateDir.wp_mapSegment (h : TemplateDir nUsed b m) (hb : nUsed ≤ m.npage) {f n : ℕ}
    (hn : 0 < n) (hal : va.toNat % 4096 = 0) (hva : va.toNat + n * 4096 ≤ ULIM.toNat)
    (hf : f + n ≤ nUsed)
    (hperm : perm ||| PTE_R ||| PTE_V < 0x400)
    (hW : ¬ HasFlag (entryFlags (perm ||| PTE_R ||| PTE_V)) PTE_W)
    (hnone : ∀ va', (VPN va).toNat ≤ (VPN va').toNat → (VPN va').toNat < (VPN va).toNat + n →
      m.entryAt b va' = none) :
    Prog.wp (mapSegment b 0#32 (page2pa f) va n perm) m
      (fun _ m' => TemplateDir nUsed b m' ∧ m.pageFreeList.length ≤ m'.pageFreeList.length + n ∧
        m'.npage = m.npage ∧ (∀ va' < ULIM, (VPN va').toNat < (VPN va).toNat →
          m'.entryAt b va' = m.entryAt b va') ∧ SparesBoot nUsed m m')
      (fun _ _ => False) (fun _ => False) := by
  have hmax : nUsed ≤ 0x80000 := hb.trans h.unused.npage_le
  rw [mapSegment, if_pos ⟨by rw [page2pa_toNat (by omega)]; omega, hal⟩]
  refine (Prog.wp_forRange (fun i m' => TemplateDir nUsed b m' ∧
    m.pageFreeList.length ≤ m'.pageFreeList.length + i ∧ m'.npage = m.npage ∧
    (∀ va' < ULIM, (VPN va').toNat < (VPN va).toNat ∨ (VPN va).toNat + i ≤ (VPN va').toNat →
      m'.entryAt b va' = m.entryAt b va') ∧ SparesBoot nUsed m m') n 0
    ⟨h, by simp, rfl, fun _ _ _ => rfl, .refl nUsed m⟩ ?_).mono ?_ (fun _ _ hf => hf) fun _ hp => hp
  · rintro i m₁ - hi ⟨h₁, hlen, hn₁, hsame, hspares⟩
    have hi' : i < n := by omega
    obtain ⟨hvpn, hlt⟩ := VPN_add hal hva hi'
    have hnone₁ : m₁.entryAt b (va + BitVec.ofNat 32 (i * 4096)) = none := by
      rw [hsame _ hlt (.inr hvpn.ge)]
      exact hnone _ (by omega) (by omega)
    rw [Prog.wp_bind, page2pa_add (by omega), wp_pa2page, frameOf_page2pa (by omega)]
    refine ⟨fun hc => by omega, fun _ => ?_⟩
    rw [Prog.wp_bind, Prog.wp_attempt]
    have ho := userHalf_of_lt hlt
    have hdir : onlyDir b 0 = some b := rfl
    refine (pageInsert_cases 0#32 (perm ||| PTE_R ||| PTE_V) hlt (by omega)
      (fun t ht => (h₁.unused.lt_npage t ht).trans_le h₁.unused.npage_le)
      (h₁.wf.not_tableAt_self (e := 0) rfl ho)).mono ?_ ?_ ?_
    · intro _ m₂ hcase
      obtain ⟨h₂, hlen₂, hn₂⟩ := h₁.insert (by omega) hlt (by omega) hperm hW hnone₁ hcase
      refine ⟨h₂, by omega, hn₂.trans hn₁, fun va' hva' hor => ?_,
        hspares.trans (h₁.insert_spares hlt hnone₁ hcase)⟩
      rw [hcase.entryAt h₁.wf h₁.unused hdir ho hdir (userHalf_of_lt hva'), if_neg,
        hsame va' hva' (by omega)]
      rintro ⟨-, heq⟩
      rw [heq] at hor
      omega
    · rintro c m₂ ⟨-, rfl, -, -⟩
      exact ⟨h₁, by omega, hn₁, fun va' hva' hor => hsame va' hva' (by omega), hspares⟩
    · rintro p ⟨t, ht, hv, -⟩
      have he : onlyDir b 0 = some b := rfl
      rw [entryAt_eq_slotWord ho he, slotWord_pte_of_table (PTX_lt _) ((tableAt_iff ho he).mp ht),
        validWord_of_valid hv] at hnone₁
      simp at hnone₁
  · rintro - m₁ ⟨h₁, hlen, hn₁, hsame, hspares⟩
    exact ⟨h₁, by omega, hn₁, fun va' hva' hlt => hsame va' hva' (.inl hlt), hspares⟩

/-- A page just taken for a directory, before anything is mapped. -/
lemma TemplateDir.init {rest : List ℕ} (hf : m.pageFreeList = b :: rest) (hnp : m.npage ≤ 0x80000)
    (hnd : m.pageFreeList.Nodup)
    (hfree : ∀ p ∈ m.pageFreeList, p < m.npage ∧ m.ppRef p = 0#16 ∧ nUsed ≤ p) :
    TemplateDir nUsed b ((m.take b rest).addRef b) := by
  have hsw : ∀ s, slotWord userHalf (onlyDir b) ((m.take b rest).addRef b) s = none := by
    intro s
    cases s with
    | dir e => rfl
    | pde e i =>
        rw [slotWord]
        by_cases he : e = 0 <;> simp [onlyDir, he]
    | pte e i j =>
        rw [slotWord]
        by_cases he : e = 0 <;> simp [onlyDir, he]
  have htgt : ∀ s f, target userHalf (onlyDir b) ((m.take b rest).addRef b) s = some f →
      s = .dir 0 ∧ f = b := by
    intro s f hs
    cases s with
    | dir e =>
        rw [target, onlyDir] at hs
        split_ifs at hs with he
        exact ⟨by rw [he], (Option.some.inj hs).symm⟩
    | pde e i => simp [target, hsw] at hs
    | pte e i j => simp [target, hsw] at hs
  rw [hf] at hnd hfree
  obtain ⟨hnot, hnd⟩ := List.nodup_cons.mp hnd
  refine ⟨⟨?_⟩, ⟨hnp, fun t ht => (hfree t (by simp only [List.mem_cons]; exact .inr ht)).1, ?_⟩,
    hnd, ?_, ?_, ?_⟩
  · intro s s' f _ hs hs'
    rw [(htgt s f hs).1, (htgt s' f hs').1]
  · intro t ht s hs
    exact hnot ((htgt s t hs).2 ▸ ht)
  · intro p hp
    have hne : p ≠ b := fun hc => hnot (hc ▸ hp)
    rw [Pmap.addRef_ppRef, Function.update_of_ne hne, Pmap.take_ppRef]
    exact (hfree p (List.mem_cons_of_mem b hp)).2
  · intro s f _ hs
    rw [(htgt s f hs).2]
    exact (hfree b (by simp)).2.2
  · intro e i j w hw
    simp [hsw] at hw

lemma TemplateDir.npage_le (h : TemplateDir nUsed b m) : m.npage ≤ 0x80000 := h.unused.npage_le

lemma TemplateDir.lt_npage (h : TemplateDir nUsed b m) : ∀ p ∈ m.pageFreeList, p < m.npage :=
  h.unused.lt_npage

lemma TemplateDir.nUsed_le (h : TemplateDir nUsed b m) : ∀ p ∈ m.pageFreeList, nUsed ≤ p :=
  fun p hp => (h.free_ref p hp).2

lemma TemplateDir.base_notMem (h : TemplateDir nUsed b m) : b ∉ m.pageFreeList :=
  fun hb => h.unused.unused b hb (.dir 0) rfl

/-- The tables below the kernel's half are not free, and show boot pages, read-only. -/
lemma TemplateDir.shared (h : TemplateDir nUsed b m) (kb : ℕ) :
    let mem := (m.copyWords b kb (PDX KSEG0) 512).mem
    ∀ i, PDX UTOP ≤ i → i < PDX UVPT → HasFlag (mem b i) PTE_V →
      pteFrame (mem b i) ∉ m.pageFreeList ∧
      ∀ j < 1024, HasFlag (mem (pteFrame (mem b i)) j) PTE_V →
        pteFrame (mem (pteFrame (mem b i)) j) < nUsed ∧
        ¬ HasFlag (mem (pteFrame (mem b i)) j) PTE_W := by
  intro mem i _ hhi hv
  have hi : ¬ PDX KSEG0 ≤ i := by
    rw [PDX_UVPT] at hhi
    rw [show PDX KSEG0 = 512 by decide]
    omega
  have hcopy : mem b i = m.mem b i := by
    simp [mem, Pmap.copyWords, hi]
  have ho : userHalf i = true := by
    rw [userHalf, decide_eq_true_iff]
    rw [PDX_UVPT] at hhi
    omega
  rw [hcopy] at hv ⊢
  have ht : target userHalf (onlyDir b) m (.pde 0 i) = some (pteFrame (m.mem b i)) :=
    target_eq_some_pde.mpr ⟨ho, b, rfl, hv, rfl⟩
  have hne : pteFrame (m.mem b i) ≠ b := by
    intro hc
    rw [hc] at ht
    exact h.wf.dir_ne_table ht (show onlyDir b 0 = some b from rfl)
  have hmem : mem (pteFrame (m.mem b i)) = m.mem (pteFrame (m.mem b i)) := by
    funext j
    simp [mem, Pmap.copyWords, hne]
  rw [hmem]
  refine ⟨fun hp => h.unused.unused _ hp _ ht, fun j hj hvj => ?_⟩
  have hsw : slotWord userHalf (onlyDir b) m (.pte 0 i j) =
      some (m.mem (pteFrame (m.mem b i)) j) := by
    rw [slotWord_pte_of_table hj ht, validWord_of_valid hvj]
  exact h.boot 0 i j _ hsw

/-- The template that a finished directory is, with the kernel's half copied in from `kb`. -/
def TemplateDir.template (h : TemplateDir nUsed b m) (kb : ℕ) (gap strict : Bool)
    (hm : strict = true → gap = false) : Template where
  npage := m.npage
  nUsed := nUsed
  pool := m.pageFreeList
  base := b
  mem := (m.copyWords b kb (PDX KSEG0) 512).mem
  gap := gap
  strict := strict
  strict_gap := hm
  npage_le := h.npage_le
  lt_npage := h.lt_npage
  nUsed_le := h.nUsed_le
  base_notMem := h.base_notMem
  shared := h.shared kb

/-- **The page directory part of `env_init`.** -/
lemma wp_envInitVm (mc : Machine) (m : Pmap) (hn : m.npage = mc.npage)
    (hr : ∀ p, mc.nUsed ≤ p → m.ppRef p = 0#16)
    (hf : m.pageFreeList = (List.range' mc.nUsed (mc.npage - mc.nUsed)).reverse) :
    Prog.wp (envInitVm mc) m
      (fun b m' => ∃ m₁, TemplateDir mc.nUsed b m₁ ∧
        m' = m₁.copyWords b mc.kbasepgdir (PDX KSEG0) 512 ∧ m₁.npage = mc.npage ∧
        mc.npage ≤ m₁.pageFreeList.length + mc.nUsed + pagesSpan mc.npage + envsSpan + 1 ∧
        SparesBoot mc.nUsed m m₁)
      (fun _ _ => False) (fun _ => False) := by
  have hroom := mc.room
  have hle := mc.npage_le
  have hbelow := mc.envs_below
  have hmem : ∀ p ∈ m.pageFreeList, p < m.npage ∧ m.ppRef p = 0#16 ∧ mc.nUsed ≤ p := by
    intro p hp
    rw [hf, List.mem_reverse, List.mem_range'_1] at hp
    exact ⟨by omega, hr p hp.1, hp.1⟩
  have hlen : m.pageFreeList.length = mc.npage - mc.nUsed := by
    rw [hf, List.length_reverse, List.length_range']
  have hnd : m.pageFreeList.Nodup := by
    rw [hf, List.nodup_reverse]
    exact List.nodup_range'
  have hspan : pagesSpan mc.npage ≤ 1536 := by
    rw [pagesSpan]
    omega
  have hpos : 0 < pagesSpan mc.npage := by
    rw [pagesSpan]
    omega
  -- a literal number of rounds would be unrolled
  have hN : envsSpan = 53 := rfl
  rw [envInitVm]
  generalize envsSpan = N at hN hbelow ⊢
  rw [Prog.wp_bind, wp_panicOn]
  cases hl : m.pageFreeList with
  | nil =>
      rw [hl, List.length_nil, Machine.nUsed] at hlen
      omega
  | cons b rest =>
      rw [wp_pageAlloc_cons hl, Prog.wp_bind, Prog.wp_modify, Prog.wp_bind]
      have h₀ : TemplateDir mc.nUsed b ((m.take b rest).addRef b) :=
        TemplateDir.init hl (hn ▸ hle) hnd hmem
      have hnone : ∀ va, ((m.take b rest).addRef b).entryAt b va = none := by
        intro va
        simp [Pmap.entryAt, Pmap.walk, Pmap.pde]
      have hb : mc.nUsed ≤ m.npage := by
        rw [hn, Machine.nUsed]
        omega
      refine (@TemplateDir.wp_mapSegment mc.nUsed b _ UPAGES (PTE_G ||| PTE_U) h₀ hb
        Machine.pagesFrame (pagesSpan mc.npage) hpos (by decide) ?_ ?_ (by decide) (by decide)
        fun va' _ _ => hnone va').mono ?_ (fun _ _ hf => hf) fun _ hp => hp
      · rw [ULIM_toNat, show UPAGES.toNat = 0x7f800000 by decide]
        omega
      · rw [Machine.pagesFrame, Machine.nUsed]
        omega
      intro _ m₁ hm₁
      have h₁ := hm₁.1
      have hlen₁ := hm₁.2.1
      have hn₁ := hm₁.2.2.1
      have hsame := hm₁.2.2.2.1
      have htaken : SparesBoot mc.nUsed m ((m.take b rest).addRef b) := by
        refine ⟨fun f hf => Pmap.take_mem_of_ne m rest fun hfb => ?_, ?_⟩
        · exact absurd (hmem b (by rw [hl]; exact List.mem_cons_self)).2.2 (by omega)
        · rw [hl]
          exact List.suffix_cons b rest
      rw [Prog.wp_bind]
      have hb₁ : mc.nUsed ≤ m₁.npage := hn₁.symm ▸ hb
      have hboot : mc.envsFrame + N ≤ mc.nUsed := by
        rw [Machine.nUsed]
        omega
      have hnone₁ : ∀ va', (VPN UENVS).toNat ≤ (VPN va').toNat →
          (VPN va').toNat < (VPN UENVS).toNat + N → m₁.entryAt b va' = none := by
        intro va' _ hlt
        rw [show (VPN UENVS).toNat = 0x7f400 by decide, VPN_toNat] at hlt
        rw [hsame va', hnone]
        · rw [BitVec.lt_def, ULIM_toNat]
          omega
        · rw [VPN_toNat, show (VPN UPAGES).toNat = 0x7f800 by decide]
          omega
      have hpos' : 0 < N := by omega
      have hal : UENVS.toNat % 4096 = 0 := by decide
      have hperm : (PTE_G ||| PTE_U) ||| PTE_R ||| PTE_V < 0x400 := by decide
      have hW : ¬ HasFlag (entryFlags ((PTE_G ||| PTE_U) ||| PTE_R ||| PTE_V)) PTE_W := by decide
      have hlow : UENVS.toNat + N * 4096 ≤ ULIM.toNat := by
        rw [ULIM_toNat, show UENVS.toNat = 0x7f400000 by decide]
        omega
      have hseg := @TemplateDir.wp_mapSegment mc.nUsed b m₁ UENVS (PTE_G ||| PTE_U) h₁ hb₁
        mc.envsFrame N hpos' hal hlow hboot hperm hW hnone₁
      refine hseg.mono ?_ (fun _ _ hf => hf) fun _ hp => hp
      intro _ m₂ hm₂
      have hlen₂ := hm₂.2.1
      rw [Prog.wp_bind, Prog.wp_modify, Prog.wp_pure]
      refine ⟨m₂, hm₂.1, rfl, hm₂.2.2.1.trans (hn₁.trans hn), ?_,
        htaken.trans (hm₁.2.2.2.2.trans hm₂.2.2.2.2)⟩
      clear hlow hseg
      have hlen₀ : ((m.take b rest).addRef b).pageFreeList.length + 1 = mc.npage - mc.nUsed := by
        rw [← hlen, hl, List.length_cons]
        rfl
      omega

end Template

/-! ## The state after boot -/

/-- The kernel after boot, with what `page_init` and `env_init` left in the pages. -/
def Machine.afterBoot (mc : Machine) (dev : Devices) (b : ℕ) (m : Pmap) : Kernel :=
  { mc.initial dev with
    pm := m
    basePgdir := b
    envFreeList := List.range (NENV + 1)
    envSchedList := (mc.initial dev).envSchedList.init }

@[simp] lemma Machine.afterBoot_envFreeList (mc : Machine) (dev : Devices) (b : ℕ) (m : Pmap) :
    (mc.afterBoot dev b m).envFreeList = List.range (NENV + 1) := by
  rw [Machine.afterBoot]

/-- What `page_init` and `env_init` leave behind. -/
structure Booted (mc : Machine) (dev : Devices) (T : Template) (k : Kernel) : Prop where
  kInv : KInv T k
  npage_eq : T.npage = mc.npage
  nUsed_eq : T.nUsed = mc.nUsed
  pool_eq : T.pool = k.pm.pageFreeList
  room : mc.npage ≤ k.pm.pageFreeList.length + mc.nUsed + pagesSpan mc.npage + envsSpan + 1
  /-- The rest of the state is still as the static initialisers left it. -/
  rest : k = mc.afterBoot dev k.basePgdir k.pm

/-- No env is live. -/
lemma target_of_no_dirs {own : ℕ → Bool} {dirs : ℕ → Option ℕ} {m : Pmap}
    (h : ∀ e, dirs e = none) (s : Slot) : target own dirs m s = none :=
  target_of_dirs_none (h s.env)

/-- The invariant of the pages, when no env is live. -/
lemma TemplateDir.pages {nUsed b : ℕ} {m : Pmap} (h : TemplateDir nUsed b m) (kb : ℕ)
    (gap strict : Bool) (hm : strict = true → gap = false) (n : ℕ) {dirs : ℕ → Option ℕ}
    (hd : ∀ e, dirs e = none) :
    Pages (h.template kb gap strict hm) n dirs (m.copyWords b kb (PDX KSEG0) 512) := by
  have htgt : ∀ s, target (h.template kb gap strict hm).own dirs
      (m.copyWords b kb (PDX KSEG0) 512) s = none :=
    target_of_no_dirs hd
  have hrefs : ∀ p, RefGraph.refs (slots n)
      (target (h.template kb gap strict hm).own dirs (m.copyWords b kb (PDX KSEG0) 512)) p = 0 :=
    fun p => refs_eq_zero_iff.mpr fun s _ => by simp [htgt]
  have hzero : ∀ p ∈ m.pageFreeList, (m.ppRef p).toNat = 0 := by
    intro p hp
    rw [(h.free_ref p hp).1]
    rfl
  refine ⟨rfl, ⟨?_, h.free_nodup, fun p hp => hp, ?_, ?_, hzero, ?_, ?_, ?_, ?_⟩,
    fun f _ => rfl, ?_, ?_, ?_⟩
  · exact fun s hs => absurd (htgt s) hs
  · exact fun s p hs => by simp [htgt] at hs
  · exact fun p _ s => by simp [htgt]
  · exact fun p => (hrefs p).le.trans (Nat.zero_le _)
  · exact fun p hp => absurd (hrefs p) hp
  · exact fun _ p hp => (hzero p hp).trans (hrefs p).symm
  · exact fun s s' p _ hs => by simp [htgt] at hs
  · exact fun e d he => by simp [hd] at he
  · intro s w hw
    rw [slotWord_of_dirs_none (hd s.env)] at hw
    simp at hw
  · exact fun e d he => by simp [hd] at he

/-- The loop of `env_init` puts the envs on the list in order. -/
lemma wp_envFreeList_loop (n : ℕ) (k : Kernel) (hl : k.envFreeList = []) :
    Prog.wp (Prog.forRange (fun j => Prog.modify fun k : Kernel =>
        { k with envFreeList := (n - j) :: k.envFreeList }) 0 (n + 1)) k
      (fun _ k' => k' = { k with envFreeList := List.range (n + 1) })
      (fun (_ : Exit) _ => False) (fun (_ : Panic) => False) := by
  refine (Prog.wp_forRange (fun j k' => k' = { k with
    envFreeList := List.range' (n + 1 - j) j }) (n + 1) 0 ?_ ?_).mono ?_ (fun _ _ hf => hf)
    fun _ hp => hp
  · rw [List.range'_zero, ← hl]
  · rintro j k' - hj rfl
    rw [Prog.wp_modify, show n + 1 - j = n - j + 1 by omega,
      show n + 1 - (j + 1) = n - j by omega, List.range'_succ]
  · rintro - k' rfl
    rw [Nat.zero_add, Nat.sub_self, ← List.range_eq_range']

/-- Boot ends in a finished template directory `b`, into which the kernel's half is copied. -/
structure LeftByBoot (mc : Machine) (b : ℕ) (m : Pmap) : Prop where
  template : TemplateDir mc.nUsed b m
  npage_eq : m.npage = mc.npage
  room : mc.npage ≤ m.pageFreeList.length + mc.nUsed + pagesSpan mc.npage + envsSpan + 1
  mem : ∀ f < mc.nUsed, m.mem f = mc.mem f
  free : m.pageFreeList <:+ (List.range' mc.nUsed (mc.npage - mc.nUsed)).reverse

/-- **Boot succeeds.** -/
lemma wp_bootProg (mc : Machine) (dev : Devices) :
    Prog.wp (bootProg mc) (mc.initial dev) (fun _ k => ∃ b m, LeftByBoot mc b m ∧
      k = mc.afterBoot dev b (m.copyWords b mc.kbasepgdir (PDX KSEG0) 512))
      (fun _ _ => False) (fun _ => False) := by
  rw [bootProg, Prog.wp_bind, wp_liftPm]
  refine (wp_pageInit _ mc.nUsed).mono ?_ (fun _ _ hf => hf) fun _ hp => hp
  rintro - m rfl
  rw [envInit, Prog.wp_bind, Prog.wp_modify, Prog.wp_bind]
  refine (wp_envFreeList_loop NENV _ rfl).mono ?_ (fun _ _ hf => hf) fun _ hp => hp
  intro _ k hk
  -- the list stays a variable, or it is written out in full
  obtain ⟨l, hl⟩ : ∃ l, List.range (NENV + 1) = l := ⟨_, rfl⟩
  rw [hl] at hk
  subst hk
  rw [Prog.wp_bind, wp_liftPm]
  refine (wp_envInitVm mc _ rfl ?_ rfl).mono ?_ (fun _ _ hf => hf) fun _ hp => hp
  · intro p hp
    simp only [Nat.not_lt.mpr hp, if_false]
    rfl
  intro b m hm
  obtain ⟨m₁, h₁, rfl, hn, hlen, hspares⟩ := hm
  rw [Prog.wp_modify]
  refine ⟨b, m₁, ⟨h₁, hn, hlen, hspares.mem, hspares.free⟩, ?_⟩
  rw [Machine.afterBoot, hl]

/-- What boot leaves behind satisfies the kernel invariant. -/
lemma LeftByBoot.booted {mc : Machine} {b : ℕ} {m : Pmap} (h : LeftByBoot mc b m) (dev : Devices)
    (gap strict : Bool) (hm : strict = true → gap = false) :
    Booted mc dev (h.template.template mc.kbasepgdir gap strict hm)
      (mc.afterBoot dev b (m.copyWords b mc.kbasepgdir (PDX KSEG0) 512)) := by
  refine ⟨⟨h.template.pages mc.kbasepgdir gap strict hm (NENV + 1) fun e => rfl, rfl,
    ?_, ?_, ?_, ?_⟩,
    h.npage_eq, rfl, rfl, h.room, rfl⟩
  · intro e he
    cases he
  · rw [Machine.afterBoot_envFreeList]
    exact List.nodup_range
  · intro e he
    rw [Machine.afterBoot_envFreeList, List.mem_range] at he
    exact ⟨rfl, Nat.lt_succ_iff.mp he⟩
  · exact fun e => (by decide : (0#32 : Word) < UTOP)

/-- **Boot succeeds, in a state that satisfies the kernel invariant.** -/
theorem boot_spec (mc : Machine) (dev : Devices) (gap strict : Bool)
    (hm : strict = true → gap = false) :
    ∃ T k, bootProg mc (mc.initial dev) = .ok () k ∧ T.gap = gap ∧ T.strict = strict ∧
    Booted mc dev T k := by
  obtain ⟨_, k, hrun, b, m, h, rfl⟩ := (wp_bootProg mc dev).exists_ok
  exact ⟨_, _, hrun, rfl, rfl, h.booted dev gap strict hm⟩

/-! ## Creating an env -/

section Create

variable {T : Template} {k : Kernel} {e : ℕ} {α β : Type} {C : Exit → Prop}

/-- `x` works on the address space of `e`, and touches nothing but pages; it is only left early
with exits in `C`. -/
def Loads (T : Template) (e : ℕ) (C : Exit → Prop) (x : KernelM α) : Prop :=
  ∀ k, KInv T k → (k.envs e).envStatus ≠ .free →
    Prog.wp x k (fun _ k' => KInv T k' ∧ ∃ m, k' = { k with pm := m }) (fun c _ => C c)
      Panic.NotRef

namespace Loads

lemma pure (a : α) : Loads T e C (Pure.pure a : KernelM α) := fun k h _ => ⟨h, k.pm, rfl⟩

lemma bind {x : KernelM α} {f : α → KernelM β} (hx : Loads T e C x) (hf : ∀ a, Loads T e C (f a)) :
    Loads T e C (x >>= f) := by
  intro k h he
  rw [Prog.wp_bind]
  refine (hx k h he).mono ?_ (fun _ _ h' => h') fun _ hp => hp
  rintro a - ⟨h₁, m, rfl⟩
  refine (hf a _ h₁ he).mono ?_ (fun _ _ h' => h') fun _ hp => hp
  rintro b - ⟨h₂, m', rfl⟩
  exact ⟨h₂, m', rfl⟩

lemma forRange {body : ℕ → KernelM Unit} {lo n : ℕ}
    (hb : ∀ i, lo ≤ i → i < lo + n → Loads T e C (body i)) :
    Loads T e C (Prog.forRange body lo n) := by
  intro k h he
  refine Prog.wp_forRange (fun _ k' => KInv T k' ∧ ∃ m, k' = { k with pm := m }) n lo
    ⟨h, k.pm, rfl⟩ ?_
  rintro i - hi hn ⟨h₁, m, rfl⟩
  refine (hb i hi hn _ h₁ he).mono ?_ (fun _ _ h' => h') fun _ hp => hp
  rintro - - ⟨h₂, m', rfl⟩
  exact ⟨h₂, m', rfl⟩

/-- `panic_on` leaves no error to return. -/
lemma panicOnK {x : KernelM α} (hx : Loads T e (fun c => ∃ err, c = .code err) x) :
    Loads T e C (panicOnK x) := by
  intro k h he
  rw [MosRv.panicOnK, Prog.wp_bind, Prog.wp_attempt]
  refine (hx k h he).mono (fun _ _ h' => h') ?_ fun _ hp => hp
  rintro c k' ⟨err, rfl⟩
  exact ⟨by simp, by simp⟩

end Loads

/-- Byte `x` of a frame. -/
def Pmap.frameByte (m : Pmap) (f x : ℕ) : BitVec 8 := Bits.byte (m.mem f (x / 4)) (x % 4)

lemma frameByte_setByte (m : Pmap) (f a x : ℕ) (b : BitVec 8) :
    (m.setByte f a b).frameByte f x = if x = a then b else m.frameByte f x := by
  rw [Pmap.frameByte, Pmap.setByte, Pmap.write_mem]
  by_cases hw : x / 4 = a / 4
  · rw [if_pos ⟨rfl, hw⟩, Bits.byte_setByte _ _ (Nat.mod_lt _ (by decide))
      (Nat.mod_lt _ (by decide)),
      ← hw]
    have hiff : x % 4 = a % 4 ↔ x = a := by omega
    simp only [hiff, Pmap.frameByte]
  · have hne : x ≠ a := by
      rintro rfl
      exact hw rfl
    rw [if_neg fun hc => hw hc.2, if_neg hne]
    rfl

lemma byte_zero (i : ℕ) : Bits.byte 0#32 i = 0 := by
  simp [Bits.byte]

/-- What a page holds at byte `x` that held `old` there, after `len` bytes from `src` have been
copied to `offset`. -/
def copied (offset : ℕ) (src : Option (ℕ → BitVec 8)) (len x : ℕ) (old : BitVec 8) : BitVec 8 :=
  match src with
  | some src => if offset ≤ x ∧ x < offset + len then src (x - offset) else old
  | none => old

/-- `memcpy` into a page changes no other. -/
lemma wp_copyIn (p offset : ℕ) (src : Option (ℕ → BitVec 8)) (len : ℕ) (m : Pmap) :
    Prog.wp (copyIn p offset src len) m
      (fun _ m' => m'.npage = m.npage ∧ m'.ppRef = m.ppRef ∧ m'.pageFreeList = m.pageFreeList ∧
        (∀ f ≠ p, m'.mem f = m.mem f) ∧
        ∀ x, m'.frameByte p x = copied offset src len x (m.frameByte p x))
      (fun _ _ => False) (fun _ => False) := by
  cases src with
  | none => exact ⟨rfl, rfl, rfl, fun _ _ => rfl, fun _ => rfl⟩
  | some src =>
      refine (Prog.wp_forRange (fun i (m' : Pmap) => m'.npage = m.npage ∧ m'.ppRef = m.ppRef ∧
        m'.pageFreeList = m.pageFreeList ∧ (∀ f ≠ p, m'.mem f = m.mem f) ∧
        ∀ x, m'.frameByte p x = copied offset (some src) i x (m.frameByte p x)) len 0
        ⟨rfl, rfl, rfl, fun _ _ => rfl, fun x => ?_⟩ ?_).mono ?_ (fun _ _ hf => hf) fun _ hp => hp
      · rw [copied, if_neg (by omega)]
      · rintro i m' - - ⟨hn, hr, hf, hmem, hbyte⟩
        refine ⟨hn, hr, hf, fun f hfp => ?_, fun x => ?_⟩
        · rw [← hmem f hfp]
          exact Pmap.write_mem_of_ne _ _ _ hfp
        · rw [frameByte_setByte, hbyte, copied, copied]
          by_cases hx : x = offset + i
          · rw [if_pos hx, if_pos (by omega), hx, Nat.add_sub_cancel_left]
          · have hiff : offset ≤ x ∧ x < offset + i ↔ offset ≤ x ∧ x < offset + (i + 1) := by omega
            rw [if_neg hx]
            simp only [hiff]
      · rintro - m' h
        rwa [Nat.zero_add] at h

/-- **`load_icode_mapper`** maps one fresh page, below `UTOP`, and takes at most one more for a page
table. -/
lemma KInv.wp_loadIcodeMapper (h : KInv T k) (he : (k.envs e).envStatus ≠ .free) {va perm : Word}
    (hva : va < UTOP) (hperm : perm < 0x400) (offset : ℕ) (src : Option (ℕ → BitVec 8)) (len : ℕ) :
    Prog.wp (loadIcodeMapper e va offset perm src len) k
      (fun _ k' => KInv T k' ∧ ∃ m, k' = { k with pm := m } ∧
        k.pm.pageFreeList.length ≤ m.pageFreeList.length + 2 ∧
        (∀ e' d' va', k.dirs e' = some d' → va' < UTOP → ¬ (e' = e ∧ VPN va' = VPN va) →
          m.entryAt d' va' = k.pm.entryAt d' va') ∧
        ∀ va' < UTOP, m.userByte (k.envs e).envPgdir va' =
          if VPN va' = VPN va then some (copied offset src len (va'.toNat % 4096) 0)
          else k.pm.userByte (k.envs e).envPgdir va')
      (fun c _ => (∃ err, c = .code err) ∧ k.pm.pageFreeList.length < 2) (fun _ => False) := by
  rw [loadIcodeMapper, Prog.wp_bind, wp_liftPm]
  cases hf : k.pm.pageFreeList with
  | nil =>
      rw [wp_pageAlloc_nil hf]
      exact ⟨⟨_, rfl⟩, by simp⟩
  | cons pp rest =>
      rw [wp_pageAlloc_cons hf, Prog.wp_bind, wp_liftPm]
      obtain ⟨hpool, -, hunref, -⟩ := h.pages.fresh hf
      refine (wp_copyIn pp offset src len _).mono ?_ (fun _ _ hf => hf.elim) fun _ hp => hp.elim
      rintro - m₁ ⟨hn, hr, hf₁, hmem, hbyte⟩
      have hfree : ∀ s, target T.own k.dirs (k.pm.take pp rest) s ≠ some pp := by
        rw [h.pages.target_take hf]
        exact h.pages.counted.free_unref pp (by simp [hf])
      have h₁ : Pages T (NENV + 1) k.dirs m₁ := by
        refine (h.pages.take hf).scribble hn hr hf₁ fun f hne => ?_
        have hfp : f = pp := by
          by_contra hc
          exact hne (hmem f hc)
        subst hfp
        refine ⟨hpool, ?_⟩
        rintro ⟨s, -, hs⟩
        exact hfree s hs
      have hsw : slotWord T.own k.dirs m₁ = slotWord T.own k.dirs k.pm := by
        apply slotWord_congr
        rintro f ⟨s, -, hs⟩
        have hfp : f ≠ pp := fun hc => h.pages.counted.free_unref pp (by simp [hf]) s (hc ▸ hs)
        rw [hmem f hfp, Pmap.take_mem_of_ne _ _ hfp]
      rw [Prog.wp_bind, Prog.wp_get, wp_liftPm]
      have hlt : perm ||| PTE_U < 0x400 := by
        rw [BitVec.lt_def] at hperm ⊢
        rw [BitVec.toNat_or]
        exact Nat.or_lt_two_pow (n := 10) hperm (by decide)
      have hd := dirs_of_ne_free he
      refine (h.pages.wp_pageInsert_fresh _ hf hd (lt_ULIM_of_lt_UTOP hva) (own_of_lt_UTOP hva)
        (fits_of_lt hlt pp) h₁ hr hf₁ (target_congr hsw)).mono ?_ ?_ fun _ hp => hp.elim
      · rintro - m ⟨hcase, hm⟩
        have ho : T.own (PDX va) = true := own_of_lt_UTOP hva
        have hat : ∀ e' d' va', k.dirs e' = some d' → va' < UTOP → m.entryAt d' va' =
            if e' = e ∧ VPN va' = VPN va then
              some (insertedWord (m₁.entryAt (k.envs e).envPgdir va) pp (perm ||| PTE_U))
            else k.pm.entryAt d' va' := by
          intro e' d' va' hd' hva'
          have ho' : T.own (PDX va') = true := own_of_lt_UTOP hva'
          rw [hcase.entryAt h₁.wellFormed h₁.freeUnused hd ho hd' ho', entryAt_eq_slotWord ho' hd',
            entryAt_eq_slotWord ho' hd', hsw]
        refine ⟨h.setPm hm, m, rfl, ?_, fun e' d' va' hd' hva' hne => ?_, fun va' hva' => ?_⟩
        · have hlen := hcase.length_le
          rw [hf₁] at hlen
          simpa [Pmap.take, hf] using hlen
        · rw [hat e' d' va' hd' hva', if_neg hne]
        · -- neither the fresh page nor a mapped one is a page table
          have hmem_eq : ∀ f, ¬ IsTableFrame T.own k.dirs m₁ f → f ∉ m₁.pageFreeList →
              m.mem f = m₁.mem f := by
            intro f hnot hf
            have hdir : f ≠ (k.envs e).envPgdir := fun hc => hnot ⟨.dir e, trivial, hc ▸ hd⟩
            exact funext fun i => hcase.mem_eq
              (fun ht => hnot ⟨.pde e (PDX va), trivial, (tableAt_iff ho hd).mp ht⟩) hf
              fun hc => absurd hc hdir
          rw [Pmap.userByte, hat e _ va' hd hva']
          simp only [true_and]
          split_ifs with hvpn
          · have hpp : m.mem pp = m₁.mem pp := by
              refine hmem_eq pp ?_ (hf₁ ▸ (h.pages.fresh hf).2.1)
              rintro ⟨s, -, hs⟩
              rw [target_congr hsw] at hs
              exact h.pages.counted.free_unref pp (by simp [hf]) s hs
            have hx : va'.toNat % 4 = va'.toNat % 4096 % 4 := by omega
            have hz : (k.pm.take pp rest).frameByte pp (va'.toNat % 4096) = 0 := by
              rw [Pmap.frameByte, Pmap.take_mem_self]
              exact byte_zero _
            rw [Option.map_some, (insertedWord_spec _ (T.lt_max hpool) hlt).1, hpp, hx]
            change some (m₁.frameByte pp _) = _
            rw [hbyte, hz]
          · rw [Pmap.userByte]
            cases hw : k.pm.entryAt (k.envs e).envPgdir va' with
            | none => rfl
            | some w =>
                have ho' : T.own (PDX va') = true := own_of_lt_UTOP hva'
                have hslot : target T.own k.dirs k.pm (.pte e (PDX va') (PTX va')) =
                    some (pteFrame w) := by
                  rw [target, ← entryAt_eq_slotWord ho' hd, hw, Option.map_some]
                have hslot₁ := hslot
                rw [← target_congr hsw] at hslot₁
                have hne : pteFrame w ≠ pp := by
                  rintro rfl
                  exact h.pages.counted.free_unref _ (by simp [hf]) _ hslot
                have hfree' : pteFrame w ∉ m₁.pageFreeList := fun hmem =>
                  h₁.counted.free_unref _ hmem _ hslot₁
                rw [Option.map_some, Option.map_some, hmem_eq _ (h₁.not_tableFrame hslot₁) hfree',
                  hmem _ hne, Pmap.take_mem_of_ne _ _ hne]
      · rintro c m ⟨hc, -, hrest⟩
        exact ⟨⟨_, hc⟩, by simp [hrest]⟩

lemma loads_loadIcodeMapper {va perm : Word} (hva : va < UTOP) (hperm : perm < 0x400)
    (offset : ℕ) (src : Option (ℕ → BitVec 8)) (len : ℕ) :
    Loads T e (fun c => ∃ err, c = .code err) (loadIcodeMapper e va offset perm src len) := by
  intro k h he
  refine (h.wp_loadIcodeMapper he hva hperm offset src len).mono ?_ (fun _ _ hc => hc.1)
    fun _ hp => hp.elim
  rintro - k' ⟨h', m, hk', -⟩
  exact ⟨h', m, hk'⟩

lemma Phdr.perm_lt (ph : Phdr) : ph.perm < 0x400 := by
  rw [Phdr.perm]
  split_ifs <;> decide

/-- Every round of the page-wise loops is at an offset inside the segment. -/
lemma lt_of_lt_rounds {i bound r : ℕ} (h : r < rounds i bound) : i + r * 4096 < bound := by
  rw [rounds] at h
  omega

/-- A segment below `UTOP` is loaded there. -/
lemma loads_elfLoadSeg (ph : Phdr) (bin : ℕ → BitVec 8) (hva : ph.pVaddr < UTOP)
    (hend : ph.pVaddr.toNat + max ph.pFilesz.toNat ph.pMemsz.toNat ≤ UTOP.toNat) :
    Loads T e (fun c => ∃ err, c = .code err) (elfLoadSeg ph bin (loadIcodeMapper e)) := by
  have hlt : ∀ i < max ph.pFilesz.toNat ph.pMemsz.toNat, ph.pVaddr + BitVec.ofNat 32 i < UTOP := by
    intro i hi
    rw [show UTOP.toNat = 0x7f400000 by decide] at hend
    rw [BitVec.lt_def, BitVec.toNat_add, BitVec.toNat_ofNat, show UTOP.toNat = 0x7f400000 by decide]
    omega
  have hhead : Loads T e (fun c => ∃ err, c = .code err) (ph.loadHead bin (loadIcodeMapper e)) := by
    rw [Phdr.loadHead]
    split_ifs
    · exact loads_loadIcodeMapper hva ph.perm_lt _ _ _
    · exact Loads.pure ()
  refine hhead.bind fun _ => Loads.bind (Loads.forRange fun r _ hr => ?_) fun _ =>
    Loads.forRange fun r _ hr => ?_
  · rw [Nat.zero_add] at hr
    exact loads_loadIcodeMapper (hlt _ (lt_max_of_lt_left (lt_of_lt_rounds hr))) ph.perm_lt _ _ _
  · rw [Nat.zero_add] at hr
    exact loads_loadIcodeMapper (hlt _ (lt_max_of_lt_right (lt_of_lt_rounds hr))) ph.perm_lt _ _ _

/-- `load_icode` changes pages and `epc`. -/
lemma KInv.wp_loadIcode (h : KInv T k) (he : (k.envs e).envStatus ≠ .free) {b : Binary}
    (hb : b.Placed) :
    Prog.wp (loadIcode e b) k
      (fun _ k' => KInv T k' ∧ ∃ m, k' = { k with
        pm := m
        envs := Function.update k.envs e { k.envs e with
          envTf := { (k.envs e).envTf with epc := b.eEntry } } })
      (fun _ _ => False) Panic.NotRef := by
  rw [loadIcode, Prog.wp_ite, Prog.wp_panic, Prog.wp_bind]
  refine ⟨fun _ => ?_, fun _ => by decide⟩
  have hloop : Loads T e (fun _ => False) (Prog.forRange (fun i => do
      if (b.phdr i).pType = PT_LOAD then
        MosRv.panicOnK (elfLoadSeg (b.phdr i) (fun j => b.byte ((b.phdr i).pOffset.toNat + j))
          (loadIcodeMapper e))
      else Pure.pure ()) 0 b.ePhnum) := by
    refine Loads.forRange fun i _ hi => ?_
    split_ifs with hload
    · obtain ⟨hva, hend⟩ := hb i (by omega) hload
      exact (loads_elfLoadSeg _ _ hva hend).panicOnK
    · exact Loads.pure ()
  refine (hloop k h he).mono ?_ (fun _ _ h' => h') fun _ hp => hp
  rintro - - ⟨h₁, m, rfl⟩
  rw [wp_modifyEnv]
  exact ⟨h₁.updateEnv e Iff.rfl rfl (h₁.dstva e), m, rfl⟩

/-- The state in which `env_create` loads the program of the new env `e`. -/
def Kernel.newborn (k : Kernel) (e : ℕ) (rest : List ℕ) (pp : ℕ) (prest : List ℕ) (i : ℕ)
    (priority : Word) : Kernel :=
  { k with
    pm := k.setupVm pp prest
    envs := Function.update k.envs e { k.envs e with
      envPgdir := pp, envUserTlbModEntry := 0#32, envRuns := 0#32, envParentId := 0#32
      envId := k.nextId e, envAsid := BitVec.ofNat 32 i, envPri := priority
      envStatus := .runnable
      envTf := (k.envs e).envTf.setReg 2 (USTACKTOP - 8#32) }
    mkenvidI := k.mkenvidI + 1#32
    envFreeList := rest
    asidBitmap := Function.update k.asidBitmap (i >>> 5)
      (k.asidBitmap (i >>> 5) ||| (1#32 <<< (i &&& 31))) }

/-- What `env_create` changes in the kernel, pages apart. -/
def Kernel.created (k : Kernel) (e : ℕ) (rest : List ℕ) (pp : ℕ) (prest : List ℕ) (i : ℕ)
    (priority entry : Word) (m : Pmap) (q : TailQueue.Queue ℕ) : Kernel :=
  let k' := k.newborn e rest pp prest i priority
  { k' with
    pm := m
    envs := Function.update k'.envs e { k'.envs e with
      envTf := { (k'.envs e).envTf with epc := entry } }
    envSchedList := q }

section Newborn

variable {pp i : ℕ} {rest prest : List ℕ} {priority : Word} {b : Binary}

lemma newborn_status : ((k.newborn e rest pp prest i priority).envs e).envStatus = .runnable := by
  simp [Kernel.newborn]

/-- `env_create`, where `env_alloc` succeeds. -/
lemma wp_envCreate_alloc {Q : ℕ → Kernel → Prop} {E : Exit → Kernel → Prop} {P : Panic → Prop}
    (hl : k.envFreeList = e :: rest) (hf : k.pm.pageFreeList = pp :: prest)
    (hi : ((List.range NASID).find? fun i => !asidUsed k.asidBitmap i) = some i) :
    Prog.wp (envCreate b priority) k Q E P ↔
      Prog.wp (loadIcode e b) (k.newborn e rest pp prest i priority) (fun _ k' =>
        Prog.wp (onSchedList (.insertHead e)) k' (fun _ k'' => Q e k'') E P) E P := by
  rw [envCreate, Prog.wp_bind, Prog.wp_attempt, wp_envAlloc, hl, hf, hi]
  simp only [Prog.wp_bind, wp_modifyEnv, Prog.wp_pure, Kernel.allocated, Function.update_self,
    Function.update_idem]
  rfl

lemma KInv.newborn (h : KInv T k) (hl : k.envFreeList = e :: rest)
    (hf : k.pm.pageFreeList = pp :: prest) : KInv T (k.newborn e rest pp prest i priority) := by
  refine h.born hl hf rfl ?_ ?_ rfl rfl rfl rfl rfl rfl
  · simp
  · exact h.dstva e

end Newborn

/-- **`env_create`** of a program that lies below `UTOP`. -/
lemma KInv.wp_envCreate (h : KInv T k) {b : Binary} (hb : b.Placed) (priority : Word) :
    Prog.wp (envCreate b priority) k
      (fun e k' => KInv T k' ∧ ∃ rest pp prest i m q, k.envFreeList = e :: rest ∧
        (TailQueue.Op.insertHead e).apply k.envSchedList = some q ∧
        k' = k.created e rest pp prest i priority b.eEntry m q)
      (fun _ _ => False) Panic.NotRef := by
  cases hl : k.envFreeList with
  | nil =>
      rw [envCreate, Prog.wp_bind, Prog.wp_attempt, wp_envAlloc, hl]
      exact (by decide : Panic.NotRef .noEnv)
  | cons e rest =>
      cases hf : k.pm.pageFreeList with
      | nil =>
          rw [envCreate, Prog.wp_bind, Prog.wp_attempt, wp_envAlloc, hl, hf]
          exact (by decide : Panic.NotRef .noEnv)
      | cons pp prest =>
          cases hi : (List.range NASID).find? fun i => !asidUsed k.asidBitmap i with
          | none =>
              rw [envCreate, Prog.wp_bind, Prog.wp_attempt, wp_envAlloc, hl, hf, hi]
              exact (by decide : Panic.NotRef .noEnv)
          | some i =>
              rw [wp_envCreate_alloc hl hf hi]
              refine ((h.newborn hl hf).wp_loadIcode (e := e) (by simp [newborn_status]) hb).mono ?_
                (fun _ _ hf => hf) fun _ hp => hp
              rintro - k' ⟨h', m, rfl⟩
              refine wp_onSchedList (by decide) (by decide) fun q hq => ?_
              exact ⟨h'.of_eq rfl rfl rfl rfl rfl rfl, rest, pp, prest, i, m, q, rfl, hq, rfl⟩

/-! ## Events -/

/-- A store of the running env goes to a page, never to a page table. -/
lemma KInv.wp_store (h : KInv T k) {va : Word} {b : BitVec 8}
    (hen : (Event.store va b).Enabled k) :
    Prog.wp (Event.store va b).prog k (fun _ k' => KInv T k' ∧ ∃ m, k' = { k with pm := m })
      (fun _ _ => False) Panic.NotRef := by
  obtain ⟨hcur, hva, d, w, hd, hw, hW, -⟩ := hen
  obtain ⟨c, hc⟩ := Option.ne_none_iff_exists'.mp hcur
  rw [Event.prog, Prog.wp_bind, wp_getCurPgdir]
  refine ⟨fun d' hd' => ?_, fun _ => by decide⟩
  rw [hd] at hd'
  cases hd'
  rw [Prog.wp_bind, Prog.wp_get, hw]
  simp only [wp_liftPm, Prog.wp_modify]
  exact ⟨h.setPm (h.pages.setByte (h.curPgdir hd hc) hva hw hW _ _), _, rfl⟩

/-- The call an event makes, if it makes one, is admissible. -/
def Event.Admissible (k : Kernel) : Event → Prop
  | .trap tf => tf.Admissible k
  | _ => True

/-- The event does nothing that the template excludes. -/
def Event.Serves (T : Template) (k : Kernel) : Event → Prop
  | .trap tf => tf.Serves T k
  | _ => True

lemma Event.serves_of_gap (hT : T.gap = true) (k : Kernel) (ev : Event) : ev.Serves T k := by
  cases ev with
  | trap tf =>
      refine ⟨fun _ => .inl hT, fun _ hs => ?_⟩
      rw [T.strict_gap hs] at hT
      exact absurd hT (by decide)
  | _ => trivial

/-- **Every admissible event keeps the kernel invariant.** -/
theorem KInv.wp_event (h : KInv T k) {ev : Event} (hen : ev.Enabled k) (ha : ev.Admissible k)
    (hs : ev.Serves T k) :
    Prog.wp ev.prog k (fun _ k' => KInv T k') (fun _ k' => KInv T k') Panic.NotRef := by
  cases ev with
  | create img priority =>
      rw [Event.prog, Prog.wp_bind]
      exact (h.wp_envCreate img.placed priority).mono (fun _ _ h' => h'.1) (fun _ _ hf => hf.elim)
        fun _ hp => hp
  | trap tf => exact h.wp_trap ha hs hen
  | store va b =>
      exact (h.wp_store hen).mono (fun _ _ h' => h'.1) (fun _ _ hf => hf.elim) fun _ hp => hp

end Create

end MosRv
