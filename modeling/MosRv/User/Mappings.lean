import MosRv.User.Fork

/-!
# What a mapping call changes

User code can tell the entries of its address space, and what is in the pages they name.
`Kernel.Remapped` is what a call does to these that sets one entry: every other entry of a live env
is the same, and so is every page that was in use and is not a page table.

The lemmas about the calls say that they are made: with a page or two to spare and a legal address,
`sys_mem_alloc`, `sys_mem_map` and `sys_mem_unmap` of the running env come back with 0.
-/

namespace MosRv

open Prog RefGraph

/-- The entries of a page directory that are an env's own. -/
def ownUser (i : ℕ) : Bool := decide (i < PDX UTOP ∨ i = PDX UVPT)

/-- The entry for the address is an env's own. -/
def IsOwnVa (va : Word) : Prop := ownUser (PDX va) = true

namespace Kernel

variable (k : Kernel)

def Live (e : ℕ) : Prop := (k.envs e).envStatus ≠ .free

/-- The entry of `e` for `va`. -/
def entry (e : ℕ) (va : Word) : Option Word := k.pm.entryAt (k.envs e).envPgdir va

/-- The page is a page directory or a page table of a live env. -/
def IsTable (f : ℕ) : Prop := IsTableFrame ownUser k.dirs k.pm f

/-- A live env maps the page. -/
def Maps (f : ℕ) : Prop := ∃ e va w, k.Live e ∧ IsOwnVa va ∧ k.entry e va = some w ∧ pteFrame w = f

/-- **From `k` to `k'` the entry of `e` for `va` is set to `o`.** -/
structure Remapped (k' : Kernel) (e : ℕ) (va : Word) (o : Option Word) : Prop where
  rest : ∃ m tf, k' = { k with pm := m, ktf := tf }
  entry : ∀ x y, k.Live x → IsOwnVa y →
    k'.entry x y = if x = e ∧ VPN y = VPN va then o else k.entry x y
  mem : ∀ f, ¬ k.IsTable f → f ∉ k.pm.pageFreeList → k'.pm.mem f = k.pm.mem f
  /-- A new page table was a free page. -/
  table : ∀ f, k'.IsTable f → k.IsTable f ∨ f ∈ k.pm.pageFreeList

/-- Admissible events lead from `k` to `k'`. -/
def Leads (k' : Kernel) : Prop :=
  Relation.ReflTransGen (fun k k' => ∃ ev : Event, ev.Admissible k ∧ Step k ev k') k k'

end Kernel

section

variable {mc : Machine} {T : Template} {k k' : Kernel} {e p pp : ℕ} {va y perm w : Word} {m : Pmap}
  {o : Option Word} {tf : Trapframe} {f : ℕ}

lemma Template.own_eq (h : T.gap = true) : T.own = ownUser := by
  funext i
  simp [Template.own, ownUser, h]

lemma isOwnVa_of_lt (h : va < UTOP) : IsOwnVa va := by
  rw [IsOwnVa, ownUser, decide_eq_true_iff]
  exact .inl ((lt_UTOP_iff va).mp h)

lemma IsOwnVa.own (h : IsOwnVa va) (hgap : T.gap = true) : T.own (PDX va) = true := by
  rw [Template.own_eq hgap]
  exact h

lemma Kernel.Live.dirs (h : k.Live e) : k.dirs e = some (k.envs e).envPgdir := dirs_of_ne_free h

/-! ## Pages in use -/

lemma target_of_entry (hgap : T.gap = true) (he : k.Live e) (hva : IsOwnVa va)
    (hw : k.entry e va = some w) :
    target T.own k.dirs k.pm (.pte e (PDX va) (PTX va)) = some (pteFrame w) := by
  rw [target, ← entryAt_eq_slotWord (hva.own hgap) he.dirs]
  exact congrArg (Option.map pteFrame) hw

section

variable (hk : KInv T k) (hgap : T.gap = true)
include hk hgap

lemma Kernel.Maps.not_isTable (h : k.Maps f) : ¬ k.IsTable f := by
  obtain ⟨e, va, w, he, hva, hw, rfl⟩ := h
  rw [Kernel.IsTable, ← Template.own_eq hgap]
  exact hk.pages.not_tableFrame (target_of_entry hgap he hva hw)

lemma Kernel.Maps.notMem_free (h : k.Maps f) : f ∉ k.pm.pageFreeList := by
  obtain ⟨e, va, w, he, hva, hw, rfl⟩ := h
  exact hk.pages.counted.notMem_free_of_tgt (target_of_entry hgap he hva hw)

lemma Kernel.Maps.mem_pool (h : k.Maps f) : f ∈ T.pool := by
  obtain ⟨e, va, w, he, hva, hw, rfl⟩ := h
  exact hk.pages.counted.tgt_pool _ _ (target_of_entry hgap he hva hw)

/-- A free page is neither a table nor mapped. -/
lemma not_isTable_of_free (hf : f ∈ k.pm.pageFreeList) : ¬ k.IsTable f := by
  rw [Kernel.IsTable, ← Template.own_eq hgap]
  rintro ⟨s, -, hs⟩
  exact hk.pages.counted.free_unref f hf s hs

end

namespace Kernel.Remapped

variable (h : k.Remapped k' e va o)
include h

lemma envs_eq : k'.envs = k.envs := by
  obtain ⟨m, tf, rfl⟩ := h.rest
  rfl

lemma curenv_eq : k'.curenv = k.curenv := by
  obtain ⟨m, tf, rfl⟩ := h.rest
  rfl

lemma curPgdir_eq : k'.curPgdir = k.curPgdir := by
  obtain ⟨m, tf, rfl⟩ := h.rest
  rfl

lemma live_iff {x : ℕ} : k'.Live x ↔ k.Live x := by rw [Kernel.Live, h.envs_eq, Kernel.Live]

lemma entry_self (he : k.Live e) (hva : IsOwnVa va) : k'.entry e va = o := by
  rw [h.entry e va he hva, if_pos ⟨rfl, rfl⟩]

lemma entry_of_ne {x : ℕ} (hx : k.Live x) (hy : IsOwnVa y) (hne : ¬ (x = e ∧ VPN y = VPN va)) :
    k'.entry x y = k.entry x y := by
  rw [h.entry x y hx hy, if_neg hne]

end Kernel.Remapped

/-! ## Insertion and removal -/

section

variable (hk : KInv T k) (hgap : T.gap = true) (he : k.Live e) (hva : IsOwnVa va)
include hk hgap he hva

/-- An insertion makes a table of a free page, if of any. -/
lemma isTable_of_insert (hcase : InsertCase k.pm (k.envs e).envPgdir pp va perm m)
    (hf : Kernel.IsTable { k with pm := m, ktf := tf } f) :
    k.IsTable f ∨ f ∈ k.pm.pageFreeList := by
  have ho := hva.own hgap
  rw [Kernel.IsTable, ← Template.own_eq hgap] at hf ⊢
  obtain ⟨s, hs, hst⟩ := hf
  have hne : s ≠ .pte e (PDX va) (PTX va) := by
    rintro rfl
    exact hs
  change target T.own k.dirs m s = some f at hst
  cases ht : target T.own k.dirs k.pm (.pde e (PDX va)) with
  | some t =>
      have hsw := hcase.slotWord_of_table hk.pages.wellFormed he.dirs ho ht
      rw [target_of_slotWord (by simp) hsw, if_neg hne] at hst
      exact .inl ⟨s, hs, hst⟩
  | none =>
      obtain ⟨t, rest, hl, -, -, -, -, hsw⟩ :=
        hcase.slotWord_of_no_table hk.pages.wellFormed hk.pages.freeUnused he.dirs ho ht
      have hmem : t ∈ k.pm.pageFreeList := by simp [hl]
      cases s with
      | dir x => exact .inl ⟨.dir x, hs, hst⟩
      | pde x i =>
          rw [target, hsw, if_neg hne] at hst
          split_ifs at hst with hx
          · rw [Option.map_some, pteFrame_or (hk.pages.free_lt t hmem)
              (fits_of_lt (by decide) t)] at hst
            exact .inr (Option.some.inj hst ▸ hmem)
          · exact .inl ⟨.pde x i, hs, hst⟩
      | pte x i j => exact absurd hs id

/-- `page_insert` sets one entry. -/
lemma remapped_insert (tf : Trapframe) (hcase : InsertCase k.pm (k.envs e).envPgdir pp va perm m) :
    k.Remapped { k with pm := m, ktf := tf } e va (some (insertedWord (k.entry e va) pp perm)) := by
  have ho := hva.own hgap
  refine ⟨⟨m, tf, rfl⟩, fun x y hx hy => ?_, fun f htable hfree => ?_,
    fun f => isTable_of_insert hk hgap he hva hcase⟩
  · exact hcase.entryAt hk.pages.wellFormed hk.pages.freeUnused he.dirs ho hx.dirs (hy.own hgap)
  · rw [Kernel.IsTable, ← Template.own_eq hgap] at htable
    funext i
    refine hcase.mem_eq (fun ht => htable ⟨.pde e (PDX va), trivial, ?_⟩) hfree
      fun hd => absurd ⟨.dir e, trivial, ?_⟩ htable
    · exact (tableAt_iff ho he.dirs).mp ht
    · rw [hd]
      exact he.dirs

/-- With a page table in place, the tables are the same, and no page but the table is written. -/
lemma insert_table (tf : Trapframe) (hcase : InsertCase k.pm (k.envs e).envPgdir pp va perm m)
    (hw : k.entry e va ≠ none) :
    (∀ f, Kernel.IsTable { k with pm := m, ktf := tf } f ↔ k.IsTable f) ∧
      ∀ f, ¬ k.IsTable f → m.mem f = k.pm.mem f := by
  have ho := hva.own hgap
  obtain ⟨w, hw⟩ := Option.ne_none_iff_exists'.mp hw
  obtain ⟨t, ht, -⟩ := target_pte_eq_some.mp (target_of_entry hgap he hva hw)
  have hsw := target_of_slotWord (by simp)
    (hcase.slotWord_of_table hk.pages.wellFormed he.dirs ho ht)
  refine ⟨fun f => ?_, fun f hf => ?_⟩
  · rw [Kernel.IsTable, Kernel.IsTable, ← Template.own_eq hgap]
    refine exists_congr fun s => and_congr_right fun hs => ?_
    have hne : s ≠ .pte e (PDX va) (PTX va) := by
      rintro rfl
      exact hs
    change target T.own k.dirs m s = some f ↔ _
    rw [hsw, if_neg hne]
  · rw [Kernel.IsTable, ← Template.own_eq hgap] at hf
    have hne : ∀ {t'}, k.pm.TableAt (k.envs e).envPgdir va t' → f ≠ t' := by
      rintro t' ht' rfl
      exact hf ⟨.pde e (PDX va), trivial, (tableAt_iff ho he.dirs).mp ht'⟩
    cases hcase with
    | reflag ht' => exact Pmap.write_mem_of_ne _ _ _ (hne ht')
    | replace ht' => exact Pmap.write_mem_of_ne _ _ _ (hne ht')
    | fill ht' => exact Pmap.write_mem_of_ne _ _ _ (hne ht')
    | grow hv => exact absurd ((tableAt_iff ho he.dirs).mpr ht).1 hv

/-- A page is taken and mapped. -/
lemma remapped_fresh (tf : Trapframe) {rest : List ℕ} (hf : k.pm.pageFreeList = pp :: rest)
    (hcase : InsertCase (k.pm.take pp rest) (k.envs e).envPgdir pp va perm m) :
    k.Remapped { k with pm := m, ktf := tf } e va (some (insertedWord (k.entry e va) pp perm)) ∧
      ∀ i, m.mem pp i = 0#32 := by
  have ho := hva.own hgap
  have htake := hk.pages.take hf
  have hmem : pp ∈ k.pm.pageFreeList := by simp [hf]
  have hk₁ : KInv T { k with pm := k.pm.take pp rest } := hk.setPm htake
  have hslots : slotWord T.own k.dirs (k.pm.take pp rest) = slotWord T.own k.dirs k.pm := by
    refine slotWord_congr ?_
    rintro f ⟨s, -, hs⟩
    exact Pmap.take_mem_of_ne k.pm rest fun hc => hk.pages.counted.free_unref pp hmem s (hc ▸ hs)
  have hentry : ∀ x y, k.Live x → IsOwnVa y →
      Kernel.entry { k with pm := k.pm.take pp rest } x y = k.entry x y := by
    intro x y hx hy
    change (k.pm.take pp rest).entryAt _ _ = _
    rw [entryAt_eq_slotWord (hy.own hgap) hx.dirs, hslots,
      ← entryAt_eq_slotWord (hy.own hgap) hx.dirs]
    rfl
  have hset := remapped_insert hk₁ hgap he hva tf hcase
  have htables : ∀ f, Kernel.IsTable { k with pm := k.pm.take pp rest } f ↔ k.IsTable f := by
    intro f
    rw [Kernel.IsTable, Kernel.IsTable, ← Template.own_eq hgap]
    refine exists_congr fun s => and_congr_right fun _ => ?_
    change target T.own k.dirs (k.pm.take pp rest) s = some f ↔ _
    rw [target_congr hslots]
  refine ⟨⟨⟨m, tf, rfl⟩, fun x y hx hy => ?_, fun f htable hfree => ?_, fun f hf' => ?_⟩,
    fun i => ?_⟩
  · rw [← hentry e va he hva, ← hentry x y hx hy]
    exact hset.entry x y hx hy
  · have hne : f ≠ pp := by
      rintro rfl
      exact hfree hmem
    rw [hset.mem f (mt (htables f).mp htable) fun hc => hfree (by simp [hf, show f ∈ rest from hc])]
    exact Pmap.take_mem_of_ne k.pm rest hne
  · rcases hset.table f hf' with htable | hfree
    · exact .inl ((htables f).mp htable)
    · exact .inr (by simp [hf, show f ∈ rest from hfree])
  · have hnot : ¬ Kernel.IsTable { k with pm := k.pm.take pp rest } pp :=
      fun hc => not_isTable_of_free hk hgap hmem ((htables pp).mp hc)
    have hnodup : pp ∉ rest := (hk.pages.fresh hf).2.1
    rw [show m.mem pp = (k.pm.take pp rest).mem pp from hset.mem pp hnot hnodup]
    exact Pmap.take_mem_self _ _ _ rest

/-- `page_remove` clears one entry, and changes no page but the table. -/
lemma remapped_remove (tf : Trapframe) (hcase : RemoveCase k.pm (k.envs e).envPgdir va m) :
    k.Remapped { k with pm := m, ktf := tf } e va none ∧
      ∀ f, ¬ k.IsTable f → m.mem f = k.pm.mem f := by
  have ho := hva.own hgap
  have hmem : ∀ f, ¬ k.IsTable f → m.mem f = k.pm.mem f := by
    intro f htable
    cases hcase with
    | absent => rfl
    | @removed t ht hv hr =>
        refine Pmap.write_mem_of_ne _ _ _ fun hc => htable ?_
        rw [Kernel.IsTable, ← Template.own_eq hgap]
        exact ⟨.pde e (PDX va), trivial, hc ▸ (tableAt_iff ho he.dirs).mp ht⟩
  refine ⟨⟨⟨m, tf, rfl⟩, fun x y hx hy => ?_, fun f htable _ => hmem f htable,
    fun f hf => ?_⟩, hmem⟩
  · exact hcase.entryAt hk.pages.wellFormed he.dirs ho hx.dirs (hy.own hgap)
  · rw [Kernel.IsTable, ← Template.own_eq hgap] at hf ⊢
    obtain ⟨s, hs, hst⟩ := hf
    have hne : s ≠ .pte e (PDX va) (PTX va) := by
      rintro rfl
      exact hs
    change target T.own k.dirs m s = some f at hst
    rw [target_of_slotWord (by simp) (hcase.slotWord hk.pages.wellFormed he.dirs ho),
      if_neg hne] at hst
    exact .inl ⟨s, hs, hst⟩

end

/-! ## Counting -/

/-- What names a page: an entry of a live env, or the page is a table. -/
lemma slot_cases (hgap : T.gap = true) {s : Slot} (hs : target T.own k.dirs k.pm s = some f) :
    k.IsTable f ∨ ∃ e va w, s = .pte e (PDX va) (PTX va) ∧ k.Live e ∧ IsOwnVa va ∧
      k.entry e va = some w ∧ pteFrame w = f := by
  cases s with
  | dir x => exact .inl ⟨.dir x, trivial, hs⟩
  | pde x i =>
      rw [Kernel.IsTable, ← Template.own_eq hgap]
      exact .inl ⟨.pde x i, trivial, hs⟩
  | pte x i j =>
      obtain ⟨t, ht, hj, -, -⟩ := target_pte_eq_some.mp hs
      obtain ⟨ho, d, hd, -, -⟩ := target_eq_some_pde.mp ht
      obtain ⟨va, rfl, rfl⟩ : ∃ va, PDX va = i ∧ PTX va = j := ⟨_, PDX_PTX_va (own_lt ho) hj⟩
      obtain ⟨hlive, rfl⟩ := dirs_eq_some.mp hd
      rw [target, ← entryAt_eq_slotWord ho hd, Option.map_eq_some_iff] at hs
      obtain ⟨w, hw, hf⟩ := hs
      rw [Template.own_eq hgap] at ho
      exact .inr ⟨x, va, w, rfl, hlive, ho, hw, hf⟩

/-- A page is counted once for each place where it is mapped. -/
lemma refCount_le_length (l : List (ℕ × Word)) (hk : KInv T k) (hgap : T.gap = true) (hf : k.Maps f)
    (hall : ∀ x y w, k.Live x → IsOwnVa y → k.entry x y = some w → pteFrame w = f →
      ∃ place ∈ l, x = place.1 ∧ VPN y = VPN place.2) : k.refCount f ≤ l.length := by
  have hslot : ∀ s, target T.own k.dirs k.pm s = some f →
      s ∈ l.map fun place => Slot.pte place.1 (PDX place.2) (PTX place.2) := by
    intro s hs
    rcases slot_cases hgap hs with htable | ⟨x, y, w, rfl, hx, hy, hw, hwf⟩
    · exact absurd htable (hf.not_isTable hk hgap)
    · obtain ⟨place, hplace, hxy⟩ := hall x y w hx hy hw hwf
      exact List.mem_map.mpr ⟨place, hplace, (slot_eq_iff.mpr hxy).symm⟩
  calc k.refCount f ≤ refs (slots (NENV + 1)) (target T.own k.dirs k.pm) f :=
        hk.refCount_le (T.nUsed_le f (hf.mem_pool hk hgap))
    _ ≤ (l.map fun place => Slot.pte place.1 (PDX place.2) (PTX place.2)).toFinset.card :=
        Finset.card_le_card fun s hs => List.mem_toFinset.mpr (hslot s (Finset.mem_filter.mp hs).2)
    _ ≤ l.length := (List.toFinset_card_le _).trans_eq (List.length_map _)

/-- A page that is mapped in one place is counted once. -/
lemma refCount_le_one (e : ℕ) (va : Word) (hk : KInv T k) (hgap : T.gap = true) (hf : k.Maps f)
    (hone : ∀ x y w, k.Live x → IsOwnVa y → k.entry x y = some w → pteFrame w = f →
      x = e ∧ VPN y = VPN va) : k.refCount f ≤ 1 :=
  refCount_le_length [(e, va)] hk hgap hf fun x y w hx hy hw hwf =>
    ⟨(e, va), List.mem_singleton_self _, hone x y w hx hy hw hwf⟩

lemma refCount_free (hk : KInv T k) (hf : f ∈ k.pm.pageFreeList) : k.refCount f = 0 := by
  have hle := hk.refCount_le (T.nUsed_le f (hk.pages.counted.free_pool f hf))
  rw [refs_eq_zero_iff.mpr fun s _ => hk.pages.counted.free_unref f hf s] at hle
  exact Nat.le_zero.mp hle

lemma hasFlag_pteBits {flag : Word} (hflag : flag &&& 0x3FF#32 = flag) :
    HasFlag (pteBits w) flag ↔ HasFlag w flag := by
  rw [HasFlag, HasFlag, pteBits, BitVec.and_assoc, BitVec.and_comm _ flag, hflag]

/-- An inserted entry has the flags it was given. -/
lemma hasFlag_insertedWord_iff {old : Option Word} {flag : Word} (hpp : pp < 0x80000)
    (hperm : perm < 0x400) (hflag : flag &&& 0x3FF#32 = flag) :
    HasFlag (insertedWord old pp perm) flag ↔ HasFlag (entryFlags perm) flag := by
  rw [← hasFlag_pteBits hflag, (insertedWord_spec old hpp hperm).2]

lemma Kernel.Leads.reaches (h : k.Leads k') (hk : Reaches mc (fun k ev => ev.Admissible k) k) :
    Reaches mc (fun k ev => ev.Admissible k) k' := by
  induction h with
  | refl => exact hk
  | tail _ hstep ih =>
      obtain ⟨ev, hev⟩ := hstep
      exact ih.step hev

lemma Kernel.Leads.of_step (ev : Event) (ha : ev.Admissible k) (h : Step k ev k') : k.Leads k' :=
  .single ⟨ev, ha, h⟩

lemma Kernel.Leads.trans {k'' : Kernel} (h : k.Leads k') (h' : k'.Leads k'') : k.Leads k'' :=
  Relation.ReflTransGen.trans h h'

/-- A trap of the running env is an event of the machine. -/
lemma KInv.trap_leads (hk : KInv T k) (hgap : T.gap = true) (hcur : k.curenv = some p)
    (ha : tf.Admissible k) (hrun : trap tf k = .ok () k') : KInv T k' ∧ k.Leads k' := by
  refine ⟨(hk.wp_trap ha ?_ (.inl (by simp [hcur]))).of_ok hrun,
    .of_step (.trap tf) ha ⟨.inl (by simp [hcur]), .inl hrun⟩⟩
  exact ⟨fun _ => .inl hgap, fun hx hs => absurd (T.strict_gap hs) (by simp [hgap])⟩

/-- A call of the running env keeps the invariant. -/
lemma KInv.trap_call (hk : KInv T k) (hgap : T.gap = true) (hcur : k.curenv = some p)
    {call : Syscall} (hcall : tf.Calls call) (ha : call.Admissible k)
    (hrun : trap tf k = .ok () k') :
    KInv T k' ∧ k.Leads k' := by
  refine hk.trap_leads hgap hcur ?_ hrun
  rintro call' ⟨-, hcall'⟩
  obtain rfl := Option.some.inj (hcall.2.symm.trans hcall')
  exact ha

/-! ## The calls -/

section

variable {envid srcva dstva : Word} {r : Word}

lemma Kernel.live_of_cur (hk : KInv T k) (hcur : k.curenv = some p) : k.Live p := by
  obtain ⟨d, hd, -⟩ := hk.cur p hcur
  exact (dirs_eq_some.mp hd).1

lemma Kernel.curPgdir_of_cur (hk : KInv T k) (hcur : k.curenv = some p) :
    k.curPgdir = some (k.envs p).envPgdir := by
  obtain ⟨d, hd, hcd⟩ := hk.cur p hcur
  rw [hcd, (dirs_eq_some.mp hd).2]

lemma lt_UTOP_of_legal (hva : isIllegalVa va = false) : va < UTOP :=
  isIllegalVa_eq_false (by simp [hva])

/-- What a call that comes back has done, as a trap of the running env. -/
lemma trap_of_wp {call : Syscall} {Q : Word → Kernel → Prop} (hcall : tf.Calls call)
    (hwp : wp call.run (k.entering tf) Q (fun _ _ => False) fun _ => False) :
    ∃ r k₁, trap tf k = .ok () (k₁.returning r) ∧ Q r k₁ := by
  obtain ⟨r, k₁, hrun, hQ⟩ := hwp.exists_ok
  have htrap : wp (trap tf) k (fun _ k' => k' = k₁.returning r)
      (fun _ _ => False) fun _ => False := by
    rw [wp_trap_call hcall, wp_of_ok hrun]
  obtain ⟨u, k', hk', rfl⟩ := htrap.exists_ok
  exact ⟨r, k₁, hk', hQ⟩

lemma admissible_memAlloc (hk : KInv T k) (hperm : perm < 0x400) :
    (Syscall.memAlloc envid va perm).Admissible k := by
  intro q perm' hq
  simp only [Syscall.mapped, Option.map_eq_some_iff, Prod.mk.injEq] at hq
  obtain ⟨pp, hpp, rfl, rfl⟩ := hq
  refine ⟨fits_of_lt hperm pp, ?_⟩
  rw [refCount_free hk (List.mem_of_head? hpp)]
  decide

lemma admissible_memMap (hcur : k.curenv = some p) (hperm : perm < 0x400)
    (hw : k.entry p srcva = some w)
    (hrefs : k.refCount (pteFrame w) < 65535) :
    (Syscall.memMap 0#32 srcva envid dstva perm).Admissible k := by
  intro q perm' hq
  have hpage : k.pageAt p srcva = some (pteFrame w) := by
    rw [Kernel.pageAt, show k.pm.entryAt _ srcva = some w from hw, Option.map_some]
  simp only [Syscall.mapped, Kernel.envOf, if_true, hcur, Option.bind_some, hpage, Option.map_some,
    Option.some.injEq, Prod.mk.injEq] at hq
  obtain ⟨rfl, rfl⟩ := hq
  exact ⟨fits_of_lt hperm _, hrefs⟩

/-- **`sys_mem_alloc(0, va, perm)`**, with two pages to spare. -/
lemma trap_memAlloc (hk : KInv T k) (hgap : T.gap = true) (hcur : k.curenv = some p)
    (hva : isIllegalVa va = false) (hperm : perm < 0x400) (hfree : 2 ≤ k.pm.pageFreeList.length)
    (hcall : tf.Calls (.memAlloc 0#32 va perm)) :
    ∃ k' pp rest, trap tf k = .ok () k' ∧ k.pm.pageFreeList = pp :: rest ∧
      (KInv T k' ∧ k.Leads k') ∧
      k.Remapped k' p va (some (insertedWord (k.entry p va) pp (perm ||| PTE_U))) ∧
      (∀ i, k'.pm.mem pp i = 0#32) ∧ rest.length ≤ k'.pm.pageFreeList.length + 1 ∧
      k'.ktf.regs 10 = 0#32 := by
  have hlive := Kernel.live_of_cur hk hcur
  have hlt := lt_UTOP_of_legal hva
  cases hf : k.pm.pageFreeList with
  | nil => simp [hf] at hfree
  | cons pp rest =>
      have hrest : rest ≠ [] := by
        rintro rfl
        simp [hf] at hfree
      obtain ⟨r, k₁, htrap, rfl, m, hcase, rfl⟩ :=
        trap_of_wp (k := k) (Q := fun r k₁ => r = 0#32 ∧ ∃ m,
          InsertCase (k.pm.take pp rest) (k.envs p).envPgdir pp va (perm ||| PTE_U) m ∧
          k₁ = { k.entering tf with pm := m }) hcall <| by
        have hself : (k.entering tf).Resolves 0#32 true p := .self rfl hcur
        rw [Syscall.run, sysMemAlloc, if_neg (by simp [hva]), hself.wp, wp_bind, wp_liftPm,
          wp_pageAlloc_cons (m := (k.entering tf).pm) hf, wp_bind, wp_get, wp_bind, wp_liftPm]
        refine ((hk.pages.take hf).wp_pageInsert_cases _ _ hlive.dirs (lt_ULIM_of_lt_UTOP hlt)
          (own_of_lt_UTOP hlt) (hk.pages.fresh hf).1).mono ?_ ?_ fun _ hp => hp
        · exact fun _ m hcase => ⟨rfl, m, hcase, rfl⟩
        · exact fun _ _ hexit => hrest hexit.2.2
      obtain ⟨hset, hzero⟩ := remapped_fresh hk hgap hlive (isOwnVa_of_lt hlt)
        ((k.entering tf).ktf.setReg 10 0#32) hf hcase
      exact ⟨_, pp, rest, htrap, rfl, hk.trap_call hgap hcur hcall
        (admissible_memAlloc hk hperm) htrap,
        hset, hzero, hcase.length_le, by simp [Kernel.returning, Trapframe.setReg]⟩

/-- **`sys_mem_map(0, srcva, envid, dstva, perm)`**, with a page for a page table. -/
lemma trap_memMap (hk : KInv T k) (hgap : T.gap = true) (hcur : k.curenv = some p)
    (hsrc : isIllegalVa srcva = false) (hdst : isIllegalVa dstva = false)
    (hperm : perm < 0x400) (hw : k.entry p srcva = some w) (hrefs : k.refCount (pteFrame w) < 65535)
    (he : k.Resolves envid true e) (hlive : k.Live e)
    (hroom : k.pm.pageFreeList ≠ [] ∨ HasFlag (k.pm.pde (k.envs e).envPgdir dstva) PTE_V)
    (hcall : tf.Calls (.memMap 0#32 srcva envid dstva perm)) :
    ∃ k', trap tf k = .ok () k' ∧ (KInv T k' ∧ k.Leads k') ∧
      k.Remapped k' e dstva (some (insertedWord (k.entry e dstva) (pteFrame w) (perm ||| PTE_U))) ∧
      (k.entry e dstva ≠ none → (∀ f, k'.IsTable f ↔ k.IsTable f) ∧
        ∀ f, ¬ k.IsTable f → k'.pm.mem f = k.pm.mem f) ∧
      k.pm.pageFreeList.length ≤ k'.pm.pageFreeList.length + 1 ∧ k'.ktf.regs 10 = 0#32 := by
  have hlt := lt_UTOP_of_legal hdst
  have hpool := Kernel.Maps.mem_pool hk hgap
    ⟨p, srcva, w, Kernel.live_of_cur hk hcur, isOwnVa_of_lt (lt_UTOP_of_legal hsrc), hw, rfl⟩
  obtain ⟨r, k₁, htrap, rfl, m, hcase, rfl⟩ := trap_of_wp (k := k) (Q := fun r k₁ => r = 0#32 ∧ ∃ m,
      InsertCase k.pm (k.envs e).envPgdir (pteFrame w) dstva (perm ||| PTE_U) m ∧
      k₁ = { k.entering tf with pm := m }) hcall <| by
    have hself : (k.entering tf).Resolves 0#32 true p := .self rfl hcur
    have hother : (k.entering tf).Resolves envid true e := he.setKtf _
    rw [Syscall.run, sysMemMap, if_neg (by simp [hsrc, hdst]), hself.wp, hother.wp, wp_bind, wp_get,
      wp_bind, wp_liftPm]
    refine wp_pageLookup_entry (fun hno => ?_) ?_ fun w' hw' hge => ?_
    · exact absurd (hw.symm.trans hno) (by simp)
    · intro w' t j hw' hlt'
      obtain rfl := Option.some.inj (hw.symm.trans hw')
      rw [wp_bind, wp_liftPm]
      refine ((hk.pages.wp_pageInsert_cases _ _ hlive.dirs (lt_ULIM_of_lt_UTOP hlt)
        (own_of_lt_UTOP hlt) hpool).and wp_pageInsert_fails).mono ?_ ?_ fun _ hp => hp.1
      · exact fun _ m hcase => ⟨rfl, m, hcase.1, rfl⟩
      · rintro _ _ ⟨⟨-, -, hnil⟩, -, hfails⟩
        rcases hroom with hne | hv
        · exact hne hnil
        · exact hk.pages.wellFormed.not_tableAt_self hlive.dirs (own_of_lt_UTOP (T := T) hlt)
            (hfails.2.2.resolve_left (not_not.mpr hv)).tableAt
    · obtain rfl := Option.some.inj (hw.symm.trans hw')
      exact absurd (hk.pages.target_lt (target_of_entry hgap (Kernel.live_of_cur hk hcur)
        (isOwnVa_of_lt (lt_UTOP_of_legal hsrc)) hw)) (not_lt.mpr hge)
  have hset := remapped_insert hk hgap hlive (isOwnVa_of_lt hlt)
    ((k.entering tf).ktf.setReg 10 0#32) hcase
  exact ⟨_, htrap, hk.trap_call hgap hcur hcall (admissible_memMap hcur hperm hw hrefs) htrap, hset,
    insert_table hk hgap hlive (isOwnVa_of_lt hlt) ((k.entering tf).ktf.setReg 10 0#32) hcase,
    hcase.length_le, by simp [Kernel.returning, Trapframe.setReg]⟩

/-- **`sys_mem_unmap(0, va)`**. -/
lemma trap_memUnmap (hk : KInv T k) (hgap : T.gap = true) (hcur : k.curenv = some p)
    (hva : isIllegalVa va = false) (hcall : tf.Calls (.memUnmap 0#32 va)) :
    ∃ k', trap tf k = .ok () k' ∧ (KInv T k' ∧ k.Leads k') ∧ k.Remapped k' p va none ∧
      (∀ f, ¬ k.IsTable f → k'.pm.mem f = k.pm.mem f) ∧
      k.pm.pageFreeList.length ≤ k'.pm.pageFreeList.length := by
  have hlive := Kernel.live_of_cur hk hcur
  have hlt := lt_UTOP_of_legal hva
  obtain ⟨r, k₁, htrap, m, hcase, rfl⟩ := trap_of_wp (k := k) (Q := fun _ k₁ => ∃ m,
      RemoveCase k.pm (k.envs p).envPgdir va m ∧ k₁ = { k.entering tf with pm := m }) hcall <| by
    have hself : (k.entering tf).Resolves 0#32 true p := .self rfl hcur
    rw [Syscall.run, sysMemUnmap, if_neg (by simp [hva]), hself.wp, wp_bind, wp_get,
      wp_bind, wp_liftPm]
    exact (hk.pages.wp_pageRemove _ hlive.dirs (own_of_lt_UTOP hlt)).mono
      (fun _ m hcase => ⟨m, hcase.1, rfl⟩) (fun _ _ hf => hf) fun _ hp => hp
  obtain ⟨hset, hmem⟩ := remapped_remove hk hgap hlive (isOwnVa_of_lt hlt)
    ((k.entering tf).ktf.setReg 10 r) hcase
  refine ⟨_, htrap, hk.trap_call hgap hcur hcall
    (fun _ _ hq => by simp [Syscall.mapped] at hq) htrap,
    hset, hmem, ?_⟩
  change k.pm.pageFreeList.length ≤ m.pageFreeList.length
  cases hcase with
  | absent => exact le_rfl
  | removed =>
      rw [Pmap.write_pageFreeList, Pmap.release_pageFreeList]
      split_ifs
      · exact Nat.le_succ _
      · exact le_rfl

/-- **`sys_set_tlb_mod_entry(0, func)`**. -/
lemma trap_setTlbModEntry (hk : KInv T k) (hgap : T.gap = true) (hcur : k.curenv = some p)
    {func : Word} (hcall : tf.Calls (.setTlbModEntry 0#32 func)) :
    ∃ k' tf', trap tf k = .ok () k' ∧ (KInv T k' ∧ k.Leads k') ∧ k' = { k with
      envs := Function.update k.envs p { k.envs p with envUserTlbModEntry := func },
      ktf := tf' } := by
  obtain ⟨r, k₁, htrap, rfl⟩ := trap_of_wp (k := k) (Q := fun _ k₁ => k₁ = { k.entering tf with
      envs := Function.update k.envs p { k.envs p with envUserTlbModEntry := func } }) hcall <| by
    have hself : (k.entering tf).Resolves 0#32 true p := .self rfl hcur
    rw [Syscall.run, sysSetTlbModEntry, hself.wp, wp_bind, wp_modifyEnv, wp_pure]
    rfl
  exact ⟨_, _, htrap, hk.trap_call hgap hcur hcall
    (fun _ _ hq => by simp [Syscall.mapped] at hq) htrap,
    rfl⟩

/-! ## Demand faults -/

/-- The page at `va` is one that a fault may allocate. -/
def IsDemandVa (va : Word) : Prop := UTEMP ≤ va ∧ va < UTOP ∧
    ¬ (USTACKTOP ≤ va ∧ va < USTACKTOP + BY2PG)

lemma IsDemandVa.run_passiveAlloc (h : IsDemandVa va) (d : ℕ) (asid : Word) :
    passiveAlloc va d asid = (do
      let p ← panicOn pageAlloc
      panicOn (pageInsert d asid p va (PTE_W ||| PTE_U))) := by
  obtain ⟨hlow, htop, hguard⟩ := h
  have hUT : UTEMP.toNat = 0x3fe000 := by decide
  have hU : UTOP.toNat = 0x7f400000 := by decide
  have hUE : UENVS.toNat = 0x7f400000 := by decide
  have hUP : UPAGES.toNat = 0x7f800000 := by decide
  rw [BitVec.le_def, hUT] at hlow
  rw [BitVec.lt_def, hU] at htop
  rw [passiveAlloc, if_neg (by rw [BitVec.lt_def, hUT]; omega), if_neg hguard,
    if_neg (by rw [BitVec.le_def, hUE]; omega), if_neg (by rw [BitVec.le_def, hUP]; omega),
    if_neg (by rw [BitVec.le_def, ULIM_toNat]; omega)]

/-- **A demand fault**, with two pages to spare. -/
lemma run_demand (hk : KInv T k) (hgap : T.gap = true) (hcur : k.curenv = some p)
    (hva : IsDemandVa va) (hno : k.entry p va = none) (hfree : 2 ≤ k.pm.pageFreeList.length)
    (asid : Word) :
    ∃ k' pp rest, doTlbRefill va asid k = .ok () k' ∧ k.pm.pageFreeList = pp :: rest ∧ KInv T k' ∧
      k.Remapped k' p va (some (insertedWord none pp (PTE_W ||| PTE_U))) ∧
      (∀ i, k'.pm.mem pp i = 0#32) ∧ rest.length ≤ k'.pm.pageFreeList.length + 1 := by
  have hlive := Kernel.live_of_cur hk hcur
  have hdir := Kernel.curPgdir_of_cur hk hcur
  have hlt := hva.2.1
  cases hf : k.pm.pageFreeList with
  | nil => simp [hf] at hfree
  | cons pp rest =>
      have hrest : rest ≠ [] := by
        rintro rfl
        simp [hf] at hfree
      have hwp : wp (doTlbRefill va asid) k (fun _ k' => ∃ m,
          InsertCase (k.pm.take pp rest) (k.envs p).envPgdir pp va (PTE_W ||| PTE_U) m ∧
          k' = { k with pm := m }) (fun _ _ => False) fun _ => False := by
        rw [doTlbRefill, wp_bind, wp_getCurPgdir]
        refine ⟨fun d hd => ?_, fun hnull => absurd (hdir.symm.trans hnull) (by simp)⟩
        obtain rfl := Option.some.inj (hdir.symm.trans hd)
        rw [wp_bind, wp_liftPm]
        refine wp_pageLookup_entry (fun _ => ?_) (fun w t j hw =>
          absurd (hno.symm.trans hw) (by simp))
          fun w hw => absurd (hno.symm.trans hw) (by simp)
        rw [wp_liftPm, hva.run_passiveAlloc, wp_bind, wp_panicOn, wp_pageAlloc_cons hf, wp_panicOn]
        refine ((hk.pages.take hf).wp_pageInsert_cases _ _ hlive.dirs (lt_ULIM_of_lt_UTOP hlt)
          (own_of_lt_UTOP hlt) (hk.pages.fresh hf).1).mono ?_ ?_ fun _ hp => hp
        · exact fun _ m hcase => ⟨m, hcase, rfl⟩
        · exact fun _ _ hexit => absurd hexit.2.2 hrest
      obtain ⟨u, k', hrun, m, hcase, rfl⟩ := hwp.exists_ok
      obtain ⟨hset, hzero⟩ := remapped_fresh hk hgap hlive (isOwnVa_of_lt hlt) k.ktf hf hcase
      rw [hno] at hset
      exact ⟨_, pp, rest, hrun, rfl, ((hk.wp_doTlbRefill hcur (.inl hgap) asid).of_ok hrun).1, hset,
        hzero,
        hcase.length_le⟩

end

end

end MosRv
