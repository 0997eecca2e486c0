import MosRv.PageTable

/-!
# The two-level page table refines a finite map

Seen from outside, `page_insert`, `page_lookup`, `va2pa` and `page_remove` work on a map from user
pages to a physical page with ten flag bits.  `Pmap.entryAt` is the valid entry for an address and
`lookupView` what a caller of `page_lookup` gets to see of it: the page, and the flags behind the
pointer it is handed.

`page_table_refines_map` is the refinement, for any family of page directories that is well formed
below `UTOP` (`WellFormed userPde`): insertion updates the map of one directory at one page,
removal erases it there, nothing else changes in any directory of the family, a failed insertion
changes nothing, and the family stays well formed.  The allocator's part of the bargain is
`FreeUnused`: `page_free_list` holds no page that is in use.
-/

namespace MosRv

/-- The page-directory entries below `UTOP`. -/
def userPde (i : ℕ) : Bool := decide (i < PDX UTOP)

/-- The valid page-table entry for `va`. -/
def Pmap.entryAt (m : Pmap) (d : ℕ) (va : Word) : Option Word :=
  (m.walk d va).bind fun tj => validWord (m.mem tj.1 tj.2)

/-- What `page_lookup` shows its caller: the page and the flags of its entry. -/
def lookupView (m : Pmap) (d : ℕ) (va : Word) : Except Panic (Option (ℕ × Word)) :=
  match pageLookup d va m with
  | .ok (some (pp, t, j)) m' => .ok (some (pp, pteBits (m'.mem t j)))
  | .ok none _ => .ok none
  | .exit _ _ => .ok none
  | .panic p => .error p

section

variable {own : ℕ → Bool} {dirs : ℕ → Option ℕ} {m m' : Pmap} {e d pp : ℕ} {va perm : Word}

lemma userPde_iff (va : Word) : userPde (PDX va) = true ↔ va < UTOP := by
  rw [userPde, decide_eq_true_iff, lt_UTOP_iff]

lemma lt_ULIM_of_lt_UTOP (h : va < UTOP) : va < ULIM := by
  rw [lt_ULIM_iff, PDX_ULIM]
  have := (lt_UTOP_iff va).mp h
  rw [PDX_UTOP] at this
  omega

/-- A mapping in the directory `d'` of another memory, whose entry and page table are the same. -/
lemma entryAt_congr {d' : ℕ} (hd : m.mem d (PDX va) = m'.mem d' (PDX va))
    (ht : HasFlag (m'.pde d' va) PTE_V →
      m.mem (pteFrame (m'.pde d' va)) = m'.mem (pteFrame (m'.pde d' va))) :
    m.entryAt d va = m'.entryAt d' va := by
  rw [Pmap.entryAt, Pmap.entryAt, Pmap.walk, Pmap.walk, Pmap.pde, hd, ← Pmap.pde]
  by_cases hv : HasFlag (m'.pde d' va) PTE_V
  · rw [if_pos hv]
    simp only [Option.bind_some, ht hv]
  · rw [if_neg hv]
    rfl

/-! ## Lookups, through the slots -/

lemma entryAt_eq_slotWord (ho : own (PDX va) = true) (he : dirs e = some d) :
    m.entryAt d va = slotWord own dirs m (.pte e (PDX va) (PTX va)) := by
  rw [slotWord_pte ho (PTX_lt va) he, Pmap.entryAt, Pmap.walk, ← Pmap.pde]
  by_cases hv : HasFlag (m.pde d va) PTE_V
  · rw [if_pos hv, validWord_of_valid hv]
    rfl
  · rw [if_neg hv, validWord_of_not_valid hv]
    rfl

lemma va2pa_eq (m : Pmap) (d : ℕ) (va : Word) :
    va2pa m d va = ((m.entryAt d va).map pte2paddr).getD (~~~0#32) := by
  rw [va2pa, Pmap.entryAt]
  cases m.walk d va with
  | none => rfl
  | some tj =>
      by_cases hv : HasFlag (m.mem tj.1 tj.2) PTE_V
      · simp [hv, validWord_of_valid hv]
      · simp [hv, validWord_of_not_valid hv]

lemma lookupView_eq (m : Pmap) (d : ℕ) (va : Word) :
    lookupView m d va =
      match m.entryAt d va with
      | none => .ok none
      | some w => if m.npage ≤ pteFrame w then .error .pa2pageInvalidPa
          else .ok (some (pteFrame w, pteBits w)) := by
  have hself := Prog.wp_self (pageLookup d va) m
  rw [wp_pageLookup] at hself
  rw [lookupView, Pmap.entryAt]
  cases hw : m.walk d va with
  | none =>
      rw [hw] at hself
      rw [hself]
      rfl
  | some tj =>
      rw [hw] at hself
      obtain ⟨hno, hyes⟩ := hself
      by_cases hv : HasFlag (m.mem tj.1 tj.2) PTE_V
      · simp only [Option.bind_some, validWord_of_valid hv]
        by_cases hn : m.npage ≤ pteFrame (m.mem tj.1 tj.2)
        · rw [(hyes hv).1 hn, if_pos hn]
        · rw [(hyes hv).2 (by omega), if_neg hn]
      · simp only [Option.bind_some, validWord_of_not_valid hv, hno hv]

/-- Lookups see the number of pages and the entry, nothing else. -/
lemma lookups_congr (hn : m'.npage = m.npage) (h : m'.entryAt d va = m.entryAt d va) :
    lookupView m' d va = lookupView m d va ∧ va2pa m' d va = va2pa m d va := by
  rw [lookupView_eq, lookupView_eq, va2pa_eq, va2pa_eq, h, hn]
  exact ⟨rfl, rfl⟩

/-! ## The inserted word -/

lemma entryFlags_lt (h : perm < 0x400) : entryFlags perm < 0x400 := by
  simp only [entryFlags, BitVec.lt_def, BitVec.toNat_or] at h ⊢
  have h10 : perm.toNat < 2 ^ 10 := h
  exact Nat.or_lt_two_pow (Nat.or_lt_two_pow (Nat.or_lt_two_pow (Nat.or_lt_two_pow h10 (by decide))
    (by decide)) (by decide)) (by decide)

lemma insertedWord_spec (old : Option Word) (hpp : pp < 0x80000) (hperm : perm < 0x400) :
    pteFrame (insertedWord old pp perm) = pp ∧
      pteBits (insertedWord old pp perm) = entryFlags perm := by
  have hf := entryFlags_lt hperm
  have hnew : pteFrame (pteOf pp ||| entryFlags perm) = pp ∧
      pteBits (pteOf pp ||| entryFlags perm) = entryFlags perm :=
    ⟨pteFrame_or hpp (fits_of_lt hf pp), pteBits_reflag _ hf⟩
  cases old with
  | none => exact hnew
  | some w =>
      rw [insertedWord]
      split_ifs with h
      · exact ⟨(pteFrame_reflag w hf).trans h, pteBits_reflag w hf⟩
      · exact hnew

lemma InsertCase.npage_eq (h : InsertCase m d pp va perm m') : m'.npage = m.npage := by
  cases h <;> rfl

/-- An insertion takes at most one page, for a page table. -/
lemma InsertCase.length_le (h : InsertCase m d pp va perm m') :
    m.pageFreeList.length ≤ m'.pageFreeList.length + 1 := by
  cases h with
  | reflag => exact Nat.le_succ _
  | replace =>
      simp only [Pmap.write_pageFreeList, Pmap.addRef_pageFreeList, Pmap.release_pageFreeList]
      split_ifs
      · simp only [List.length_cons]
        omega
      · exact Nat.le_succ _
  | fill => exact Nat.le_succ _
  | grow _ hl => simp [hl, Pmap.grow]

/-- Where `page_insert` writes: the page table and the directory, at one entry. -/
lemma InsertCase.mem_eq (h : InsertCase m d pp va perm m') {f i : ℕ}
    (htable : ¬ m.TableAt d va f) (hfree : f ∉ m.pageFreeList) (hdir : f = d → i ≠ PDX va) :
    m'.mem f i = m.mem f i := by
  have hne : ∀ {t}, m.TableAt d va t → f ≠ t := fun ht hf => htable (hf ▸ ht)
  cases h with
  | reflag ht => rw [Pmap.write_mem_of_ne _ _ _ (hne ht)]
  | replace ht =>
      rw [Pmap.write_mem_of_ne _ _ _ (hne ht)]
      rfl
  | fill ht =>
      rw [Pmap.write_mem_of_ne _ _ _ (hne ht)]
      rfl
  | @grow t rest hv hl =>
      have hft : f ≠ t := fun hf => hfree (by simp [hl, hf])
      rw [Pmap.write_mem_of_ne _ _ _ hft, Pmap.addRef_mem, Pmap.grow, Pmap.write_mem]
      rw [if_neg fun hc => hdir hc.1 hc.2]
      exact congrFun (Pmap.take_mem_of_ne m rest hft) i

/-! ## Insertion and removal, on the map -/

lemma slot_eq_iff {e e' : ℕ} {va va' : Word} :
    Slot.pte e' (PDX va') (PTX va') = .pte e (PDX va) (PTX va) ↔ e' = e ∧ VPN va' = VPN va := by
  rw [VPN_eq_iff, Slot.pte.injEq]

/-- After a successful insertion the entry of one page of one directory is the inserted word, and
all others are what they were. -/
lemma InsertCase.entryAt (hwf : WellFormed own dirs m) (hfu : FreeUnused own dirs m)
    (he : dirs e = some d) (ho : own (PDX va) = true) (h : InsertCase m d pp va perm m')
    {e' d' : ℕ} {va' : Word} (he' : dirs e' = some d') (ho' : own (PDX va') = true) :
    m'.entryAt d' va' = if e' = e ∧ VPN va' = VPN va
      then some (insertedWord (m.entryAt d va) pp perm) else m.entryAt d' va' := by
  rw [entryAt_eq_slotWord ho' he', entryAt_eq_slotWord ho' he', entryAt_eq_slotWord ho he]
  cases ht : target own dirs m (.pde e (PDX va)) with
  | some t => simp only [h.slotWord_of_table hwf he ho ht, slot_eq_iff]
  | none =>
      obtain ⟨t, rest, -, -, -, -, -, hsw⟩ := h.slotWord_of_no_table hwf hfu he ho ht
      rw [hsw, slotWord_pte_of_no_table ht]
      simp only [slot_eq_iff, insertedWord, reduceCtorEq, if_false]

/-- Inserting a page that is no table keeps the family well formed. -/
lemma InsertCase.wellFormed (hwf : WellFormed own dirs m) (hfu : FreeUnused own dirs m)
    (he : dirs e = some d) (ho : own (PDX va) = true)
    (hframe : ∀ old, pteFrame (insertedWord old pp perm) = pp)
    (hpp : ¬ IsTableFrame own dirs m pp) (hfree : pp ∉ m.pageFreeList)
    (h : InsertCase m d pp va perm m') : WellFormed own dirs m' := by
  cases ht : target own dirs m (.pde e (PDX va)) with
  | some t =>
      have hsw := h.slotWord_of_table hwf he ho ht
      refine hwf.of_update (target_of_slotWord (by simp) hsw) ?_ (fun _ _ hs => absurd hs id)
      rw [Option.map_some, hframe]
      rintro p ⟨⟩ s hs - hst
      exact hpp ⟨s, hs, hst⟩
  | none =>
      obtain ⟨t, rest, hl, rfl, hwf', ht', hgrow, -⟩ := h.slotWord_of_no_table hwf hfu he ho ht
      have hmem : t ∈ m.pageFreeList := by simp [hl]
      have htlt : t < 0x80000 := (hfu.lt_npage t hmem).trans_le hfu.npage_le
      have hsw := fun s => slotWord_write_table (m := (m.grow d (PDX va) t rest).addRef pp)
        (w := pteOf pp ||| entryFlags perm) (s := s) (hwf'.congr rfl) (PTX_lt va) ht'
      have hwf₁ : WellFormed own dirs ((m.grow d (PDX va) t rest).addRef pp) := hwf'.congr rfl
      refine hwf₁.of_update (target_of_slotWord (by simp) hsw) ?_ (fun _ _ hs => absurd hs id)
      rw [validWord_entryFlags, Option.map_some]
      have hw := hframe none
      rw [insertedWord] at hw
      rw [hw]
      rintro p ⟨⟩ s hs - hst
      -- a table that is `pp` would be an old one or the page just taken from the free list
      have hst' : target own dirs (m.grow d (PDX va) t rest) s = some pp := hst
      rw [target_of_slotWord (by simp) hgrow] at hst'
      split_ifs at hst' with hs'
      · rw [Option.map_some, pteFrame_or htlt (fits_of_lt (by decide) t)] at hst'
        cases hst'
        exact hfree hmem
      · exact hpp ⟨s, hs, hst'⟩

/-- What a `page_remove` that returns has done: nothing when nothing was mapped, else the entry is
cleared and the page it named released. -/
inductive RemoveCase (m : Pmap) (d : ℕ) (va : Word) : Pmap → Prop
  | absent (h : m.entryAt d va = none) : RemoveCase m d va m
  | removed {t : ℕ} (ht : m.TableAt d va t) (hv : HasFlag (m.mem t (PTX va)) PTE_V)
      (hr : m.ppRef (pteFrame (m.mem t (PTX va))) ≠ 0#16) :
      RemoveCase m d va ((m.release (pteFrame (m.mem t (PTX va)))).write t (PTX va) 0#32)

lemma pageRemove_cases (m : Pmap) (d : ℕ) (asid va : Word) :
    Prog.wp (pageRemove d asid va) m (fun _ m' => RemoveCase m d va m') (fun _ _ => False)
      (fun p => ∃ w, m.entryAt d va = some w ∧
        ((p = .pa2pageInvalidPa ∧ m.npage ≤ pteFrame w) ∨
          (p = .assertRefPos ∧ m.ppRef (pteFrame w) = 0#16))) := by
  rw [wp_pageRemove]
  cases hw : m.walk d va with
  | none => exact .absent (by rw [Pmap.entryAt, hw, Option.bind_none])
  | some tj =>
      obtain ⟨ht, hj⟩ := Pmap.walk_eq_some.mp hw
      have hat : m.entryAt d va = validWord (m.mem tj.1 tj.2) := by
        rw [Pmap.entryAt, hw, Option.bind_some]
      refine ⟨fun hv => .absent (by rw [hat, validWord_of_not_valid hv]), fun hv =>
        ⟨?_, fun _ => ⟨?_, ?_⟩⟩⟩
      · exact fun hn => ⟨_, by rw [hat, validWord_of_valid hv], .inl ⟨rfl, hn⟩⟩
      · exact fun hr => ⟨_, by rw [hat, validWord_of_valid hv], .inr ⟨rfl, hr⟩⟩
      · rw [← hj] at hv ⊢
        exact fun hr => .removed ht hv hr

lemma RemoveCase.npage_eq (h : RemoveCase m d va m') : m'.npage = m.npage := by
  cases h <;> rfl

/-- A removal empties one slot. -/
lemma RemoveCase.slotWord (hwf : WellFormed own dirs m) (he : dirs e = some d)
    (ho : own (PDX va) = true) (h : RemoveCase m d va m') (s : Slot) :
    slotWord own dirs m' s =
      if s = .pte e (PDX va) (PTX va) then none else MosRv.slotWord own dirs m s := by
  cases h with
  | absent h =>
      split_ifs with hs
      · rw [hs, ← entryAt_eq_slotWord ho he, h]
      · rfl
  | @removed t ht hv hr =>
      have hstep := slotWord_write_table (m := m.release (pteFrame (m.mem t (PTX va))))
        (w := 0#32) (s := s) (hwf.congr rfl) (PTX_lt va) ((tableAt_iff ho he).mp ht)
      rw [hstep, validWord_zero]
      rfl

lemma RemoveCase.wellFormed (hwf : WellFormed own dirs m) (he : dirs e = some d)
    (ho : own (PDX va) = true) (h : RemoveCase m d va m') : WellFormed own dirs m' :=
  hwf.of_update (target_of_slotWord (by simp) (h.slotWord hwf he ho)) (by simp) (by simp)

lemma RemoveCase.entryAt (hwf : WellFormed own dirs m) (he : dirs e = some d)
    (ho : own (PDX va) = true) (h : RemoveCase m d va m') {e' d' : ℕ} {va' : Word}
    (he' : dirs e' = some d') (ho' : own (PDX va') = true) :
    m'.entryAt d' va' = if e' = e ∧ VPN va' = VPN va then none else m.entryAt d' va' := by
  rw [entryAt_eq_slotWord ho' he', entryAt_eq_slotWord ho' he', h.slotWord hwf he ho]
  simp only [slot_eq_iff]

lemma WellFormed.not_tableAt_self (hwf : WellFormed own dirs m) (he : dirs e = some d)
    (ho : own (PDX va) = true) : ¬ m.TableAt d va d :=
  fun h => hwf.dir_ne_table ((tableAt_iff ho he).mp h) he

/-! ## The refinement -/

/-- **The two-level page table refines a finite map.**  For a family of page directories that is
well formed below `UTOP`, a directory `d` of it, a user address `va` and an allocated page `pp`
that is no table: a `page_insert` that returns 0 updates the map of `d` at the page of `va` and
changes no other translation; one that fails reports `-E_NO_MEM` and changes nothing; and
`page_remove` erases the page of `va` and changes no other translation. -/
theorem page_table_refines_map {dirs : ℕ → Option ℕ} {m : Pmap} {e d pp : ℕ} {asid va perm : Word}
    (hwf : WellFormed userPde dirs m) (hfu : FreeUnused userPde dirs m) (he : dirs e = some d)
    (hva : va < UTOP) (hlt : pp < m.npage) (hpp : ¬ IsTableFrame userPde dirs m pp)
    (hfree : pp ∉ m.pageFreeList) (hperm : perm < 0x400) :
    (∀ m', pageInsert d asid pp va perm m = .ok () m' →
      WellFormed userPde dirs m' ∧
      ∀ e' d' va', dirs e' = some d' → va' < UTOP →
        (e' = e ∧ VPN va' = VPN va →
          lookupView m' d' va' = .ok (some (pp, entryFlags perm)) ∧
            va2pa m' d' va' = page2pa pp) ∧
        (¬ (e' = e ∧ VPN va' = VPN va) →
          lookupView m' d' va' = lookupView m d' va' ∧ va2pa m' d' va' = va2pa m d' va')) ∧
    (∀ c m', pageInsert d asid pp va perm m = .exit c m' → c = .code .noMem ∧ m' = m) ∧
    (∀ m', pageRemove d asid va m = .ok () m' →
      WellFormed userPde dirs m' ∧
      ∀ e' d' va', dirs e' = some d' → va' < UTOP →
        (e' = e ∧ VPN va' = VPN va →
          lookupView m' d' va' = .ok none ∧ va2pa m' d' va' = ~~~0#32) ∧
        (¬ (e' = e ∧ VPN va' = VPN va) →
          lookupView m' d' va' = lookupView m d' va' ∧ va2pa m' d' va' = va2pa m d' va')) := by
  have hpp' : pp < 0x80000 := hlt.trans_le hfu.npage_le
  have ho := (userPde_iff va).mpr hva
  have hins := pageInsert_cases asid perm (lt_ULIM_of_lt_UTOP hva) hpp'
    (fun t ht => (hfu.lt_npage t ht).trans_le hfu.npage_le) (hwf.not_tableAt_self he ho)
  refine ⟨fun m' hrun => ?_, fun c m' hrun => ?_, fun m' hrun => ?_⟩
  · have hcase := hins.of_ok hrun
    refine ⟨hcase.wellFormed hwf hfu he ho (fun old =>
      (insertedWord_spec old hpp' hperm).1) hpp hfree,
      fun e' d' va' he' hva' => ⟨fun hsame => ?_, fun hother => ?_⟩⟩
    · have hat := hcase.entryAt hwf hfu he ho he' ((userPde_iff va').mpr hva')
      rw [if_pos hsame] at hat
      obtain ⟨hframe, hbits⟩ :=
        insertedWord_spec (m.entryAt d va) hpp' hperm
      rw [lookupView_eq, va2pa_eq, hat, Option.map_some, Option.getD_some,
        pte2paddr_of_pteFrame hframe hpp']
      simp only [hframe, hbits, hcase.npage_eq, if_neg (show ¬ m.npage ≤ pp by omega), and_self]
    · apply lookups_congr hcase.npage_eq
      rw [hcase.entryAt hwf hfu he ho he' ((userPde_iff va').mpr hva'), if_neg hother]
  · obtain ⟨hc, hm, -, -⟩ := hins.of_exit hrun
    exact ⟨hc, hm⟩
  · have hcase := (pageRemove_cases m d asid va).of_ok hrun
    refine ⟨hcase.wellFormed hwf he ho,
      fun e' d' va' he' hva' => ⟨fun hsame => ?_, fun hother => ?_⟩⟩
    · have hat := hcase.entryAt hwf he ho he' ((userPde_iff va').mpr hva')
      rw [if_pos hsame] at hat
      rw [lookupView_eq, va2pa_eq, hat]
      exact ⟨rfl, rfl⟩
    · apply lookups_congr hcase.npage_eq
      rw [hcase.entryAt hwf he ho he' ((userPde_iff va').mpr hva'), if_neg hother]

/-- A machine of eight pages: page 1 is an empty page directory, page 2 is allocated and the rest
is free. -/
def smallPmap : Pmap where
  npage := 8
  ppRef := fun pp => if pp = 1 then 1 else 0
  pageFreeList := [3, 4, 5, 6, 7]
  mem := fun _ _ => 0

def smallDirs (e : ℕ) : Option ℕ := if e = 0 then some 1 else none

lemma target_smallPmap (s : Slot) :
    target userPde smallDirs smallPmap s = if s = .dir 0 then some 1 else none := by
  cases s with
  | dir e => simp [target, smallDirs]
  | pde e i =>
      rw [if_neg (by simp), target, slotWord]
      cases smallDirs e <;> simp [smallPmap, validWord]
  | pte e i j =>
      rw [if_neg (by simp), target, slotWord]
      cases smallDirs e <;> simp [smallPmap, validWord]

/-- Page 2, inserted for writing at `UTEXT` into the directory in page 1, is found there. -/
theorem page_table_refines_map_small :
    ∃ m', pageInsert 1 0 2 UTEXT PTE_W smallPmap = .ok () m' ∧
      va2pa m' 1 UTEXT = page2pa 2 := by
  refine ⟨_, rfl, ?_⟩
  refine ((((@page_table_refines_map smallDirs smallPmap 0 1 2 0 UTEXT PTE_W ⟨?_⟩ ⟨?_, ?_, ?_⟩ rfl
    (by decide) (by decide) ?_ (by decide) (by decide)).1 _ rfl).2 0 1 UTEXT rfl (by decide)).1
    ⟨rfl, rfl⟩).2
  · intro s s' p _ h h'
    rw [target_smallPmap] at h h'
    split_ifs at h h' with hs hs'
    rw [hs, hs']
  · decide
  · decide
  · intro t ht s h
    rw [target_smallPmap] at h
    split_ifs at h
    cases h
    simp [smallPmap] at ht
  · rintro ⟨s, -, h⟩
    rw [target_smallPmap] at h
    split_ifs at h
    simp at h

end

end MosRv
