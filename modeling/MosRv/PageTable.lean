import MosRv.Pmap

/-!
# Page tables as a graph of slots

The page directories of a family of address spaces, the page tables they name and the pages these
map form a graph whose edges are memory words.  `Slot` names the places an edge can start from: a
page directory of the family, an entry of one, an entry of a page table.  `slotWord` is the valid
word at a slot, `target` the page it names.

`WellFormed` is the shape `kern/pmap.c` relies on: each directory and each page table is named by
one slot only.  Under it a store into a page table changes one slot and no other
(`slotWord_write_table`), making a page table changes one slot and no other (`slotWord_grow`), and
memory outside the directories and tables does not matter (`slotWord_congr`).

A family is a map `dirs` from indices to directories.  `own` says which entries of a directory
belong to the address space; the others are shared with a template and are not slots.
-/

namespace MosRv

/-- A place in the page tables that can name a page. -/
inductive Slot
  /-- Address space `e` names its page directory. -/
  | dir (e : ℕ)
  /-- Entry `i` of the page directory of `e`. -/
  | pde (e i : ℕ)
  /-- Entry `j` of the page table at entry `i` of the page directory of `e`. -/
  | pte (e i j : ℕ)
  deriving DecidableEq, Repr

/-- The slot names a page directory or a page table. -/
def Slot.IsTable : Slot → Prop
  | .dir _ => True
  | .pde _ _ => True
  | .pte _ _ _ => False

/-- A word as an entry: itself when its valid bit is set. -/
def validWord (w : Word) : Option Word := if HasFlag w PTE_V then some w else none

lemma validWord_of_valid {w : Word} (h : HasFlag w PTE_V) : validWord w = some w := if_pos h

lemma validWord_of_not_valid {w : Word} (h : ¬ HasFlag w PTE_V) : validWord w = none := if_neg h

@[simp] lemma validWord_zero : validWord 0#32 = none := rfl

@[simp] lemma validWord_entryFlags (w perm : Word) :
    validWord (w ||| entryFlags perm) = some (w ||| entryFlags perm) :=
  validWord_of_valid (by simp)

@[simp] lemma validWord_or_PTE_V (w : Word) : validWord (w ||| PTE_V) = some (w ||| PTE_V) :=
  validWord_of_valid (by simp)

lemma validWord_eq_some {w w' : Word} : validWord w = some w' ↔ HasFlag w PTE_V ∧ w = w' := by
  unfold validWord
  split_ifs with h
  · simp [h]
  · simp [h]

section Slots

variable (own : ℕ → Bool) (dirs : ℕ → Option ℕ) (m : Pmap)

/-- The valid word at a slot. -/
def slotWord : Slot → Option Word
  | .dir _ => none
  | .pde e i => if own i then (dirs e).bind fun d => validWord (m.mem d i) else none
  | .pte e i j =>
      if own i ∧ j < 1024 then
        (dirs e).bind fun d => (validWord (m.mem d i)).bind fun w =>
          validWord (m.mem (pteFrame w) j)
      else none

/-- The page a slot names. -/
def target : Slot → Option ℕ
  | .dir e => dirs e
  | .pde e i => (slotWord own dirs m (.pde e i)).map pteFrame
  | .pte e i j => (slotWord own dirs m (.pte e i j)).map pteFrame

/-- `f` is a page directory or page table of the family. -/
def IsTableFrame (f : ℕ) : Prop := ∃ s : Slot, s.IsTable ∧ target own dirs m s = some f

/-- Directories and page tables are named once, by no other slot and mapped by no entry. -/
structure WellFormed : Prop where
  unique : ∀ s s' p, s.IsTable → target own dirs m s = some p → target own dirs m s' = some p →
    s' = s

/-- The allocator's side: no page on the free list is in use. -/
structure FreeUnused : Prop where
  npage_le : m.npage ≤ 0x80000
  lt_npage : ∀ t ∈ m.pageFreeList, t < m.npage
  unused : ∀ t ∈ m.pageFreeList, ∀ s, target own dirs m s ≠ some t

end Slots

section Lemmas

variable {own : ℕ → Bool} {dirs : ℕ → Option ℕ} {m m' : Pmap} {e d i j t : ℕ} {w : Word}

lemma slotWord_pde (ho : own i = true) (he : dirs e = some d) :
    slotWord own dirs m (.pde e i) = validWord (m.mem d i) := by
  simp [slotWord, ho, he]

lemma slotWord_pte (ho : own i = true) (hj : j < 1024) (he : dirs e = some d) :
    slotWord own dirs m (.pte e i j) =
      (validWord (m.mem d i)).bind fun w => validWord (m.mem (pteFrame w) j) := by
  simp [slotWord, ho, hj, he]

lemma target_eq_some_pde {p : ℕ} : target own dirs m (.pde e i) = some p ↔
    own i = true ∧ ∃ d, dirs e = some d ∧ HasFlag (m.mem d i) PTE_V ∧ pteFrame (m.mem d i) = p := by
  rw [target, slotWord]
  by_cases ho : own i = true
  · cases dirs e with
    | none => simp
    | some d =>
        simp only [ho, if_true, Option.bind_some, Option.map_eq_some_iff,
          validWord_eq_some, true_and]
        constructor
        · rintro ⟨w, ⟨hv, rfl⟩, hp⟩
          exact ⟨d, rfl, hv, hp⟩
        · rintro ⟨d', hd', hv, hp⟩
          cases hd'
          exact ⟨_, ⟨hv, rfl⟩, hp⟩
  · simp [ho]

/-- A page-table entry, read through the slot that names its page table. -/
lemma slotWord_pte_of_table (hj : j < 1024) (h : target own dirs m (.pde e i) = some t) :
    slotWord own dirs m (.pte e i j) = validWord (m.mem t j) := by
  obtain ⟨ho, d, he, hv, rfl⟩ := target_eq_some_pde.mp h
  rw [slotWord_pte ho hj he, validWord_of_valid hv, Option.bind_some]

lemma slotWord_pte_of_no_table (h : target own dirs m (.pde e i) = none) :
    slotWord own dirs m (.pte e i j) = none := by
  rw [target, Option.map_eq_none_iff, slotWord] at h
  rw [slotWord]
  split_ifs with hc
  · rw [if_pos hc.1] at h
    cases hd : dirs e with
    | none => rfl
    | some d =>
        rw [hd, Option.bind_some] at h
        rw [Option.bind_some, h, Option.bind_none]
  · rfl

lemma slotWord_pte_of_ge (h : 1024 ≤ j) : slotWord own dirs m (.pte e i j) = none := by
  rw [slotWord, if_neg fun hc => absurd hc.2 (by omega)]

lemma target_pte_eq_some {p : ℕ} : target own dirs m (.pte e i j) = some p ↔
    ∃ t, target own dirs m (.pde e i) = some t ∧ j < 1024 ∧ HasFlag (m.mem t j) PTE_V ∧
      pteFrame (m.mem t j) = p := by
  constructor
  · intro h
    rw [target, Option.map_eq_some_iff] at h
    obtain ⟨w, hw, hp⟩ := h
    have hj : j < 1024 := by
      by_contra hc
      rw [slotWord_pte_of_ge (by omega)] at hw
      simp at hw
    cases ht : target own dirs m (.pde e i) with
    | none =>
        rw [slotWord_pte_of_no_table ht] at hw
        simp at hw
    | some t =>
        rw [slotWord_pte_of_table hj ht, validWord_eq_some] at hw
        obtain ⟨hv, rfl⟩ := hw
        exact ⟨t, rfl, hj, hv, hp⟩
  · rintro ⟨t, ht, hj, hv, hp⟩
    rw [target, slotWord_pte_of_table hj ht, validWord_of_valid hv, Option.map_some, hp]

lemma target_congr (h : slotWord own dirs m' = slotWord own dirs m) :
    target own dirs m' = target own dirs m := by
  funext s
  cases s with
  | dir e => rfl
  | pde e i => rw [target, target, h]
  | pte e i j => rw [target, target, h]

lemma tableAt_iff {va : Word} (ho : own (PDX va) = true) (he : dirs e = some d) :
    m.TableAt d va t ↔ target own dirs m (.pde e (PDX va)) = some t := by
  rw [target_eq_some_pde, Pmap.TableAt, Pmap.pde]
  constructor
  · rintro ⟨hv, hp⟩
    exact ⟨ho, d, he, hv, hp⟩
  · rintro ⟨-, d', hd', hv, hp⟩
    rw [he] at hd'
    cases hd'
    exact ⟨hv, hp⟩

/-! ## What a store changes -/

/-- Memory outside the directories and page tables carries no slot. -/
lemma slotWord_congr (h : ∀ f, IsTableFrame own dirs m f → m'.mem f = m.mem f) :
    slotWord own dirs m' = slotWord own dirs m := by
  have hdir : ∀ e d, dirs e = some d → m'.mem d = m.mem d :=
    fun e d he => h d ⟨.dir e, trivial, he⟩
  have hpde : ∀ e i, slotWord own dirs m' (.pde e i) = slotWord own dirs m (.pde e i) := by
    intro e i
    rw [slotWord, slotWord]
    cases hd : dirs e with
    | none => rfl
    | some d => rw [Option.bind_some, Option.bind_some, hdir e d hd]
  funext s
  cases s with
  | dir e => rfl
  | pde e i => exact hpde e i
  | pte e i j =>
      by_cases hj : j < 1024
      · cases ht : target own dirs m (.pde e i) with
        | none =>
            have ht' : target own dirs m' (.pde e i) = none := by rw [← ht, target, target, hpde]
            rw [slotWord_pte_of_no_table ht, slotWord_pte_of_no_table ht']
        | some t =>
            have ht' : target own dirs m' (.pde e i) = some t := by rw [← ht, target, target, hpde]
            rw [slotWord_pte_of_table hj ht, slotWord_pte_of_table hj ht',
              h t ⟨.pde e i, trivial, ht⟩]
      · rw [slotWord_pte_of_ge (by omega), slotWord_pte_of_ge (by omega)]

lemma WellFormed.dir_ne_table {e' : ℕ} (hwf : WellFormed own dirs m)
    (ht : target own dirs m (.pde e i) = some t) : dirs e' ≠ some t := by
  intro hd
  have := hwf.unique (.dir e') (.pde e i) t trivial hd ht
  simp at this

lemma WellFormed.dir_inj {e' : ℕ} (hwf : WellFormed own dirs m) (he : dirs e = some d)
    (he' : dirs e' = some d) : e' = e := by
  have := hwf.unique (.dir e) (.dir e') d trivial he he'
  simpa using this

lemma WellFormed.table_inj {e' i' : ℕ} (hwf : WellFormed own dirs m)
    (ht : target own dirs m (.pde e i) = some t) (ht' : target own dirs m (.pde e' i') = some t) :
    e' = e ∧ i' = i := by
  have := hwf.unique (.pde e i) (.pde e' i') t trivial ht ht'
  simpa using this

/-- **A store into a page table changes the one slot it is aimed at.** -/
lemma slotWord_write_table (hwf : WellFormed own dirs m) (hj : j < 1024)
    (ht : target own dirs m (.pde e i) = some t) (s : Slot) :
    slotWord own dirs (m.write t j w) s =
      if s = .pte e i j then validWord w else slotWord own dirs m s := by
  have hpde : ∀ e' i', slotWord own dirs (m.write t j w) (.pde e' i') =
      slotWord own dirs m (.pde e' i') := by
    intro e' i'
    rw [slotWord, slotWord]
    cases hd : dirs e' with
    | none => rfl
    | some d =>
        have hne : d ≠ t := fun h => hwf.dir_ne_table ht (h ▸ hd)
        rw [Option.bind_some, Option.bind_some, Pmap.write_mem_of_ne _ _ _ hne]
  cases s with
  | dir e' => simp [slotWord]
  | pde e' i' => simp [hpde]
  | pte e' i' j' =>
      by_cases hj' : j' < 1024
      · have htgt : target own dirs (m.write t j w) (.pde e' i') = target own dirs m
            (.pde e' i') := by
          rw [target, target, hpde]
        cases ht' : target own dirs m (.pde e' i') with
        | none =>
            have hne : (Slot.pte e' i' j') ≠ .pte e i j := by
              intro h
              cases h
              simp [ht] at ht'
            rw [if_neg hne, slotWord_pte_of_no_table ht', slotWord_pte_of_no_table (htgt.trans ht')]
        | some t' =>
            rw [slotWord_pte_of_table hj' (htgt.trans ht'), slotWord_pte_of_table hj' ht',
              Pmap.write_mem]
            by_cases htt : t' = t
            · subst htt
              obtain ⟨rfl, rfl⟩ := hwf.table_inj ht ht'
              by_cases hjj : j' = j <;> simp [hjj]
            · have hne : (Slot.pte e' i' j') ≠ .pte e i j := by
                intro h
                cases h
                exact htt (Option.some.inj (ht'.symm.trans ht))
              rw [if_neg hne, if_neg fun h => htt h.1]
      · have hne : (Slot.pte e' i' j') ≠ .pte e i j := by
          intro h
          cases h
          exact hj' hj
        rw [if_neg hne, slotWord_pte_of_ge (by omega), slotWord_pte_of_ge (by omega)]

/-- A store into a directory, seen from the directory slots. -/
lemma slotWord_write_pde (hwf : WellFormed own dirs m) (he : dirs e = some d) (ho : own i = true)
    (e' i' : ℕ) : slotWord own dirs (m.write d i w) (.pde e' i') =
      if Slot.pde e' i' = .pde e i then validWord w else slotWord own dirs m (.pde e' i') := by
  by_cases heq : Slot.pde e' i' = .pde e i
  · cases heq
    rw [if_pos rfl, slotWord_pde ho he, Pmap.write_mem_self]
  · rw [if_neg heq, slotWord, slotWord]
    cases hd : dirs e' with
    | none => rfl
    | some d' =>
        have hne : ¬ (d' = d ∧ i' = i) := by
          rintro ⟨rfl, rfl⟩
          rw [hwf.dir_inj he hd] at heq
          exact heq rfl
        rw [Option.bind_some, Option.bind_some, Pmap.write_mem, if_neg hne]

/-- **A store into a directory changes the slot it is aimed at**, if the page table that comes or
goes with it is empty. -/
lemma slotWord_write_entry (hwf : WellFormed own dirs m) (he : dirs e = some d) (ho : own i = true)
    (hpte : ∀ j < 1024, slotWord own dirs (m.write d i w) (.pte e i j) =
      slotWord own dirs m (.pte e i j)) (s : Slot) :
    slotWord own dirs (m.write d i w) s =
      if s = .pde e i then validWord w else slotWord own dirs m s := by
  have hpde := @slotWord_write_pde _ _ _ _ _ _ w hwf he ho
  cases s with
  | dir e' => simp [slotWord]
  | pde e' i' => exact hpde e' i'
  | pte e' i' j' =>
      rw [if_neg (by simp)]
      by_cases hj' : j' < 1024
      · by_cases heq : Slot.pde e' i' = .pde e i
        · cases heq
          exact hpte j' hj'
        · have htgt : target own dirs (m.write d i w) (.pde e' i') =
              target own dirs m (.pde e' i') := by
            rw [target, target, hpde, if_neg heq]
          cases ht' : target own dirs m (.pde e' i') with
          | none => rw [slotWord_pte_of_no_table ht', slotWord_pte_of_no_table (htgt.trans ht')]
          | some t' =>
              have hne : t' ≠ d := fun h => hwf.dir_ne_table ht' (h ▸ he)
              rw [slotWord_pte_of_table hj' (htgt.trans ht'), slotWord_pte_of_table hj' ht',
                Pmap.write_mem_of_ne _ _ _ hne]
      · rw [slotWord_pte_of_ge (by omega), slotWord_pte_of_ge (by omega)]

/-- **Making a page table changes the directory slot that names it.**  The new table is a page
that was no table before, and it is empty. -/
lemma slotWord_write_dir (hwf : WellFormed own dirs m) (he : dirs e = some d) (ho : own i = true)
    (hnone : target own dirs m (.pde e i) = none) (hfresh : ¬ IsTableFrame own dirs m t)
    (hzero : ∀ j, m.mem t j = 0#32) (hv : HasFlag w PTE_V) (hw : pteFrame w = t) (s : Slot) :
    slotWord own dirs (m.write d i w) s =
      if s = .pde e i then some w else slotWord own dirs m s := by
  have htd : t ≠ d := fun h => hfresh (h ▸ ⟨.dir e, trivial, he⟩)
  have ht : target own dirs (m.write d i w) (.pde e i) = some t := by
    rw [target, slotWord_write_pde hwf he ho, if_pos rfl, validWord_of_valid hv,
      Option.map_some, hw]
  rw [← validWord_of_valid hv]
  refine slotWord_write_entry hwf he ho (fun j hj => ?_) s
  rw [slotWord_pte_of_table hj ht, Pmap.write_mem_of_ne _ _ _ htd, hzero,
    slotWord_pte_of_no_table hnone, validWord_zero]

/-! ## Keeping the shape -/

/-- A change of one slot keeps the family well formed when its new target is no table and, for a
table slot, is not named at all. -/
lemma WellFormed.of_update {s₀ : Slot} {o : Option ℕ} (hwf : WellFormed own dirs m)
    (h : ∀ s, target own dirs m' s = if s = s₀ then o else target own dirs m s)
    (hpte : ∀ p, o = some p → ∀ s, s.IsTable → s ≠ s₀ → target own dirs m s ≠ some p)
    (htab : ∀ p, o = some p → s₀.IsTable → ∀ s, s ≠ s₀ → target own dirs m s ≠ some p) :
    WellFormed own dirs m' := by
  constructor
  intro s s' p hs htgt htgt'
  rw [h] at htgt htgt'
  split_ifs at htgt htgt' with h₁ h₂ h₂
  · rw [h₁, h₂]
  · exact absurd htgt' (htab p htgt (h₁ ▸ hs) s' h₂)
  · exact absurd htgt (hpte p htgt' s hs h₁)
  · exact hwf.unique s s' p hs htgt htgt'

lemma target_of_slotWord {s₀ : Slot} {o : Option Word} (hs₀ : ∀ e, s₀ ≠ .dir e)
    (h : ∀ s, slotWord own dirs m' s = if s = s₀ then o else slotWord own dirs m s) (s : Slot) :
    target own dirs m' s = if s = s₀ then o.map pteFrame else target own dirs m s := by
  cases s with
  | dir e => rw [if_neg fun hc => hs₀ e hc.symm, target, target]
  | pde e i =>
      rw [target, h]
      split_ifs <;> rfl
  | pte e i j =>
      rw [target, h]
      split_ifs <;> rfl

lemma WellFormed.congr (hwf : WellFormed own dirs m)
    (h : slotWord own dirs m' = slotWord own dirs m) : WellFormed own dirs m' := by
  constructor
  rw [target_congr h]
  exact hwf.unique

/-- What `pgdir_walk` does to the slots when it makes `t` a page table. -/
lemma slotWord_grow (hwf : WellFormed own dirs m) (he : dirs e = some d) (ho : own i = true)
    (hnone : target own dirs m (.pde e i) = none) (hfresh : ¬ IsTableFrame own dirs m t)
    (ht : t < 0x80000) (rest : List ℕ) (s : Slot) :
    slotWord own dirs (m.grow d i t rest) s =
      if s = .pde e i then some (pteOf t ||| PTE_V) else slotWord own dirs m s := by
  have hcong : slotWord own dirs ((m.take t rest).setRef t 1#16) = slotWord own dirs m := by
    apply slotWord_congr
    intro f hf
    have hne : f ≠ t := fun h => hfresh (h ▸ hf)
    rw [Pmap.setRef_mem, Pmap.take_mem_of_ne _ _ hne]
  have htgt := target_congr hcong
  rw [Pmap.grow, slotWord_write_dir (hwf.congr hcong) he ho (by rw [htgt, hnone]) ?_
    (fun j => by simp) (by simp) (pteFrame_or ht (fits_of_lt (by decide) t)), hcong]
  rintro ⟨s', hs', hs'⟩
  exact hfresh ⟨s', by assumption, by rwa [htgt] at hs'⟩

/-! ## What `page_insert` changes -/

section Insert

variable {pp : ℕ} {va perm : Word}

/-- The word a successful `page_insert` leaves in the entry, given the word `old` it found. -/
def insertedWord (old : Option Word) (pp : ℕ) (perm : Word) : Word :=
  match old with
  | some w => if pteFrame w = pp then (w &&& ~~~0x3FF#32) ||| entryFlags perm
      else pteOf pp ||| entryFlags perm
  | none => pteOf pp ||| entryFlags perm

/-- A successful `page_insert` that needed no new page table changes one entry. -/
lemma InsertCase.slotWord_of_table (hwf : WellFormed own dirs m) (he : dirs e = some d)
    (ho : own (PDX va) = true) (h : InsertCase m d pp va perm m')
    (ht : target own dirs m (.pde e (PDX va)) = some t) (s : Slot) :
    slotWord own dirs m' s =
      if s = .pte e (PDX va) (PTX va) then
        some (insertedWord (slotWord own dirs m (.pte e (PDX va) (PTX va))) pp perm)
      else slotWord own dirs m s := by
  have hold := slotWord_pte_of_table (PTX_lt va) ht
  cases h with
  | @reflag t' ht' hv hpp =>
      cases ((tableAt_iff ho he).mp ht').symm.trans ht
      rw [slotWord_write_table hwf (PTX_lt va) ht, validWord_entryFlags, hold,
        validWord_of_valid hv, insertedWord, if_pos hpp]
  | @replace t' q ht' hv hq hlt hne hr =>
      cases ((tableAt_iff ho he).mp ht').symm.trans ht
      have hstep := slotWord_write_table (m := (m.release q).addRef pp) (j := PTX va)
        (w := pteOf pp ||| entryFlags perm) (s := s) (hwf.congr rfl) (PTX_lt va) ht
      have hnew : insertedWord (some (m.mem t (PTX va))) pp perm = pteOf pp ||| entryFlags perm :=
        if_neg (hq ▸ hne)
      rw [hstep, validWord_entryFlags, hold, validWord_of_valid hv, hnew]
      rfl
  | @fill t' ht' hv =>
      cases ((tableAt_iff ho he).mp ht').symm.trans ht
      have hstep := slotWord_write_table (m := m.addRef pp) (j := PTX va)
        (w := pteOf pp ||| entryFlags perm) (s := s) (hwf.congr rfl) (PTX_lt va) ht
      rw [hstep, validWord_entryFlags, hold, validWord_of_not_valid hv, insertedWord]
      rfl
  | grow hv hfree => exact absurd ((tableAt_iff ho he).mpr ht).1 hv

/-- A successful `page_insert` without a page table takes one from the free list and fills its
entry. -/
lemma InsertCase.slotWord_of_no_table (hwf : WellFormed own dirs m)
    (hfu : FreeUnused own dirs m) (he : dirs e = some d) (ho : own (PDX va) = true)
    (h : InsertCase m d pp va perm m') (ht : target own dirs m (.pde e (PDX va)) = none) :
    ∃ t rest, m.pageFreeList = t :: rest ∧
      m' = ((m.grow d (PDX va) t rest).addRef pp).write t (PTX va) (pteOf pp ||| entryFlags perm) ∧
      WellFormed own dirs (m.grow d (PDX va) t rest) ∧
      target own dirs (m.grow d (PDX va) t rest) (.pde e (PDX va)) = some t ∧
      (∀ s, slotWord own dirs (m.grow d (PDX va) t rest) s =
        if s = .pde e (PDX va) then some (pteOf t ||| PTE_V) else slotWord own dirs m s) ∧
      ∀ s, slotWord own dirs m' s =
        if s = .pte e (PDX va) (PTX va) then some (pteOf pp ||| entryFlags perm)
        else if s = .pde e (PDX va) then some (pteOf t ||| PTE_V)
        else slotWord own dirs m s := by
  have hno : ∀ {t'}, ¬ m.TableAt d va t' := by
    intro t' ht'
    rw [tableAt_iff ho he, ht] at ht'
    simp at ht'
  cases h with
  | reflag ht' => exact absurd ht' hno
  | replace ht' => exact absurd ht' hno
  | fill ht' => exact absurd ht' hno
  | @grow t rest hv hfree =>
      have htlt : t < 0x80000 :=
        (hfu.lt_npage t (by simp [hfree])).trans_le hfu.npage_le
      have hunused := hfu.unused t (by simp [hfree])
      have hframe : pteFrame (pteOf t ||| PTE_V) = t := pteFrame_or htlt (fits_of_lt (by decide) t)
      have hgrow := slotWord_grow hwf he ho ht (t := t) (fun ⟨s, _, hs⟩ => hunused s hs) htlt rest
      have htgt := target_of_slotWord (by simp) hgrow
      have hwf' : WellFormed own dirs (m.grow d (PDX va) t rest) := by
        refine hwf.of_update htgt ?_ ?_ <;> rw [Option.map_some, hframe]
        · rintro p ⟨⟩ s _ _
          exact hunused s
        · rintro p ⟨⟩ _ s _
          exact hunused s
      have ht' : target own dirs (m.grow d (PDX va) t rest) (.pde e (PDX va)) = some t := by
        rw [htgt, if_pos rfl, Option.map_some, hframe]
      refine ⟨t, rest, hfree, rfl, hwf', ht', hgrow, fun s => ?_⟩
      have hstep := slotWord_write_table (m := (m.grow d (PDX va) t rest).addRef pp)
        (w := pteOf pp ||| entryFlags perm) (s := s) (hwf'.congr rfl) (PTX_lt va) ht'
      rw [hstep, validWord_entryFlags]
      split_ifs with hs hs'
      · rfl
      · exact (hgrow s).trans (if_pos hs')
      · exact (hgrow s).trans (if_neg hs')

end Insert

end Lemmas

end MosRv
