import MosRv.Acts
import MosRv.Start

/-!
# Pages over whole runs

What the kernel promises about pages, in every state of every run: a page in use is never on the
free list (`no_use_after_free`), `pp_ref` is the number of mappings as long as no page gets
65536 of them, the mapping calls map the page they are asked to as long as the permission fits it,
and nothing is mapped above `UTOP` as long as no store faults in the page-table window.

Where the code does not keep such a promise the run that breaks it is spelled out, on
`smallMachine`.
-/

namespace MosRv

open RefGraph Reach

/-! ## Permissions below `0x400` -/

/-- The permission argument of a mapping call. -/
def Syscall.perm : Syscall → Option Word
  | .memAlloc _ _ perm => some perm
  | .memMap _ _ _ _ perm => some perm
  | .ipcTrySend _ _ _ perm => some perm
  | _ => none

/-- The event is not a mapping call with a permission argument of `0x400` or more. -/
def Event.PermSmall (ev : Event) : Prop :=
  ∀ tf call perm, ev = .trap tf → tf.Calls call → call.perm = some perm → perm < 0x400

lemma Syscall.perm_of_mapped {k : Kernel} {call : Syscall} {pp : ℕ} {perm : Word}
    (h : call.mapped k = some (pp, perm)) : call.perm = some perm := by
  cases call <;> simp only [Syscall.mapped, Option.map_eq_some_iff, Option.bind_eq_some_iff,
    Option.ite_none_left_eq_some, Prod.mk.injEq, reduceCtorEq] at h
  · obtain ⟨-, -, -, rfl⟩ := h
    rfl
  · obtain ⟨-, -, -, -, -, rfl⟩ := h
    rfl
  · obtain ⟨-, -, -, -, -, -, rfl⟩ := h
    rfl

/-- The page a mapping call is about to map can be counted once more. -/
def Event.Countable (k : Kernel) (ev : Event) : Prop :=
  ∀ tf call pp perm, ev = .trap tf → tf.Calls call → call.mapped k = some (pp, perm) →
    k.refCount pp < 65535

/-- Small permissions and few references make an event admissible. -/
lemma Event.PermSmall.admissible {k : Kernel} {ev : Event} (hperm : ev.PermSmall)
    (hcount : ev.Countable k) : ev.Admissible k := by
  cases ev with
  | create img priority => trivial
  | store va b => trivial
  | trap tf =>
      intro call hcall pp perm hm
      exact ⟨fits_of_lt (hperm tf call perm rfl hcall (Syscall.perm_of_mapped hm)) pp,
        hcount tf call pp perm rfl hcall hm⟩

/-! ## No use after free -/

/-- A page on the free list is not in use, and every page is counted at least as often as it is
referred to. -/
structure Kernel.PageSafe (k : Kernel) (p : ℕ) : Prop where
  free_ref : p ∈ k.pm.pageFreeList → k.pm.ppRef p = 0#16
  free_once : p ∈ k.pm.pageFreeList → k.pm.pageFreeList.count p = 1
  free_unref : p ∈ k.pm.pageFreeList → ∀ s, k.reference s ≠ some p
  count_le : k.refCount p ≤ (k.pm.ppRef p).toNat

lemma KInv.pageSafe {T : Template} {k : Kernel} {p : ℕ} (h : KInv T k) (hp : T.nUsed ≤ p) :
    k.PageSafe p where
  free_ref hf := BitVec.eq_of_toNat_eq (h.pages.counted.free_cnt p hf)
  free_once hf := List.count_eq_one_of_mem h.pages.counted.free_nodup hf
  free_unref hf s hs := h.pages.counted.free_unref p hf s (h.target_of_reference hp hs)
  count_le := (h.refCount_le hp).trans (h.pages.counted.refs_le p)

/-- **No use after free.**  In every run with permissions below `0x400` in which no page gets to
65535 references, a page on the free list is counted zero times, is there once and is referred to
by nobody, and `pp_ref` is never less than the number of references; the assertions about `pp_ref`
hold. -/
theorem no_use_after_free (mc : Machine) (k : Kernel)
    (h : Reaches mc (fun k ev => ev.PermSmall ∧ ∀ p, k.refCount p < 65535) k) :
    (∀ p, mc.nUsed ≤ p → k.PageSafe p) ∧
      ∀ ev p, ev.PermSmall → (∀ p, k.refCount p < 65535) → Panics k ev p →
        p ≠ .assertRefPos ∧ p ≠ .assertRefZero := by
  obtain ⟨T, -, hu, hgap, hk⟩ := h.kInv fun k ev hc => hc.1.admissible fun _ _ pp _ _ _ _ => hc.2 pp
  refine ⟨fun p hp => hk.pageSafe (hu ▸ hp), fun ev p hperm hcount ⟨hen, hpanic⟩ => ?_⟩
  exact (hk.wp_event hen (hperm.admissible fun _ _ pp _ _ _ _ => hcount pp)
    (ev.serves_of_gap hgap k)).of_panic hpanic

/-- No env is alive after boot. -/
lemma Populated.refCount_eq_zero {mc : Machine} {T : Template} {k : Kernel}
    (h : Populated mc T 0 k) (p : ℕ) : k.refCount p = 0 := by
  have hdirs : ∀ e, k.dirs e = none := by
    intro e
    rw [Kernel.dirs, h.unborn e (Nat.zero_le e)]
    rfl
  refine refs_eq_zero_iff.mpr fun s _ => ?_
  cases s with
  | dir e => simp [Kernel.reference, hdirs]
  | pde e i => simp [Kernel.reference, target_of_no_dirs hdirs]
  | pte e i j => simp [Kernel.reference, target_of_no_dirs hdirs]

/-- On the small machine, after the first env was created. -/
theorem no_use_after_free_small : ∃ k,
    Reaches (smallMachine false) (fun k ev => ev.PermSmall ∧ ∀ p, k.refCount p < 65535) k ∧
      (k.envs 0).envStatus = .runnable ∧
      (∀ p, (smallMachine false).nUsed ≤ p → k.PageSafe p) ∧
      ∀ ev p, ev.PermSmall → (∀ p, k.refCount p < 65535) → Panics k ev p →
        p ≠ .assertRefPos ∧ p ≠ .assertRefZero := by
  obtain ⟨T, k₀, hk₀, -, hcur, hpop⟩ := exists_booted false
  obtain ⟨k, hstep, -, hk⟩ := hpop.create hcur (by decide)
    (smallMachine_room false (by decide)) 0#32
  have hreach : Reaches (smallMachine false)
      (fun k ev => ev.PermSmall ∧ ∀ p, k.refCount p < 65535) k := by
    refine Reachable.step (.init hk₀) ⟨⟨?_, fun p => ?_⟩, hstep⟩
    · rintro tf call perm ⟨⟩
    · rw [hpop.refCount_eq_zero]
      decide
  exact ⟨k, hreach, (hk.born 0 (by decide)).1, no_use_after_free _ k hreach⟩

/-! ## The mapping calls map the page they are asked to -/

section

variable {T : Template} {n : ℕ} {dirs : ℕ → Option ℕ} {m m' : Pmap} {e d pp : ℕ}
  {va va' perm : Word}

/-- The entries that an env does not own stay what they are. -/
lemma Pages.entryAt_insert_shared (h : Pages T n dirs m) (he : dirs e = some d)
    (ho : T.own (PDX va) = true) (hcase : InsertCase m d pp va perm m') (hlt : va' < ULIM)
    (ho' : T.own (PDX va') = false) : m'.entryAt d va' = m.entryAt d va' := by
  have hpool : ∀ {t}, m.TableAt d va t → t ∈ T.pool := fun ht =>
    h.counted.tgt_pool (.pde e (PDX va)) _ ((tableAt_iff ho he).mp ht)
  have hd : ∀ {f}, target T.own dirs m (.dir e) = some f → f ∉ m.pageFreeList := fun hf hmem =>
    h.counted.free_unref _ hmem _ hf
  have hdir : target T.own dirs m (.dir e) = some d := he
  have hpde : m'.mem d (PDX va') = m.mem d (PDX va') := by
    refine hcase.mem_eq (h.wellFormed.not_tableAt_self he ho) (hd hdir) fun _ hc => ?_
    rw [hc, ho] at ho'
    exact absurd ho' (by decide)
  refine entryAt_congr hpde fun hv => ?_
  rw [Pmap.pde, h.template e d he _ (PDX_lt va') ho'] at hv ⊢
  obtain ⟨hent, hlo, hhi⟩ := T.shared_of_entry ((lt_ULIM_iff va').mp hlt) ho' hv
  rw [hent] at hv ⊢
  have hnot := (T.shared (PDX va') hlo hhi hv).1
  funext i
  refine hcase.mem_eq (fun ht => hnot (hpool ht)) (fun hmem => hnot (h.counted.free_pool _ hmem)) ?_
  exact fun hc => absurd (h.counted.tgt_pool _ _ hdir) (hc ▸ hnot)

/-- The address space of the receiver of a page: one entry is the new one. -/
lemma Pages.entryAt_insert (h : Pages T n dirs m) (he : dirs e = some d) (hva : va < UTOP)
    (hcase : InsertCase m d pp va perm m') (hlt : va' < ULIM) :
    m'.entryAt d va' = if VPN va' = VPN va then some (insertedWord (m.entryAt d va) pp perm)
      else m.entryAt d va' := by
  have ho : T.own (PDX va) = true := own_of_lt_UTOP hva
  by_cases ho' : T.own (PDX va') = true
  · have := hcase.entryAt h.wellFormed h.freeUnused he ho he ho'
    simpa using this
  · rw [Bool.not_eq_true] at ho'
    rw [h.entryAt_insert_shared he ho hcase hlt ho', if_neg]
    intro hvpn
    rw [((VPN_eq_iff _ _).mp hvpn).1, ho] at ho'
    exact absurd ho' (by decide)

/-- The valid entry at an address is clean: its page number is that of its page. -/
lemma Pages.clean_entryAt (h : Pages T n dirs m) (he : dirs e = some d)
    (ho : T.own (PDX va) = true) {w : Word} (hw : m.entryAt d va = some w) :
    ptePpn w = ptePpn (pteOf (pteFrame w)) := by
  rw [entryAt_eq_slotWord ho he] at hw
  exact h.clean _ w hw

/-- `pp` is mapped at `va`: `va2pa` says so, and the entry has the 22 bits of its page number. -/
def Pmap.MapsPage (m : Pmap) (d : ℕ) (va : Word) (pp : ℕ) : Prop :=
  va2pa m d va = page2pa pp ∧ ∃ w, m.entryAt d va = some w ∧ ptePpn w = ptePpn (pteOf pp)

/-- **A new entry names its page exactly when the permission fits it.** -/
lemma Pages.mapsPage_iff (h : Pages T n dirs m) (he : dirs e = some d) (hva : va < UTOP)
    (hpp : pp < 0x80000) (hcase : InsertCase m d pp va perm m') :
    m'.MapsPage d va pp ↔ Fits perm pp := by
  have hw : m'.entryAt d va = some (insertedWord (m.entryAt d va) pp perm) := by
    rw [h.entryAt_insert he hva hcase (lt_ULIM_of_lt_UTOP hva), if_pos rfl]
  have hppn : ptePpn (insertedWord (m.entryAt d va) pp perm) =
      ptePpn (pteOf pp ||| entryFlags perm) :=
    ptePpn_insertedWord fun w hold => h.clean_entryAt he (own_of_lt_UTOP hva) hold
  rw [← fits_entryFlags, ← ptePpn_or_iff, ← hppn]
  constructor
  · rintro ⟨-, w, hw', hclean⟩
    rw [hw] at hw'
    rwa [Option.some.inj hw']
  · intro hclean
    refine ⟨?_, _, hw, hclean⟩
    rw [va2pa_eq, hw, Option.map_some, Option.getD_some]
    refine pte2paddr_of_pteFrame ?_ hpp
    rw [pteFrame_congr hclean, pteFrame_pteOf hpp]

end

/-- The env and the address where a mapping call puts its page. -/
def Syscall.destination (k : Kernel) : Syscall → Option (ℕ × Word)
  | .memAlloc envid va _ => (k.envOf envid).map fun e => (e, va)
  | .memMap _ _ dstid dstva _ => (k.envOf dstid).map fun e => (e, dstva)
  | .ipcTrySend envid _ srcva _ =>
      if srcva = 0#32 then none
      else (k.envOf envid).map fun e => (e, (k.envs e).envIpcDstva)
  | _ => none

/-- The calls that map a page if they succeed. -/
def Syscall.Maps : Syscall → Prop
  | .memAlloc _ _ _ => True
  | .memMap _ _ _ _ _ => True
  | .ipcTrySend _ _ srcva _ => srcva ≠ 0#32
  | _ => False

/-- `pp` is mapped for the env `e` at `va`. -/
def Kernel.MapsPage (k : Kernel) (e : ℕ) (va : Word) (pp : ℕ) : Prop :=
  k.pm.MapsPage (k.envs e).envPgdir va pp

section

variable {T : Template} {k k' : Kernel} {r : Word}

lemma KInv.mapsPage_sysMemAlloc (h : KInv T k) {envid va perm : Word}
    (hrun : sysMemAlloc envid va perm k = .ok r k') :
    ∃ e pp, k.envOf envid = some e ∧ k.pm.pageFreeList.head? = some pp ∧
      (k'.MapsPage e va pp ↔ Fits perm pp) := by
  obtain ⟨-, hva, e, pp, rest, m, he, henv, hf, hcase, rfl⟩ :=
    (h.wp_sysMemAlloc_cases envid va perm).of_ok hrun
  have hpp := T.lt_max (h.pages.fresh hf).1
  refine ⟨e, pp, henv, by rw [hf, List.head?_cons], ?_⟩
  exact ((h.pages.take hf).mapsPage_iff he hva hpp hcase).trans fits_or_PTE_U

lemma KInv.mapsPage_sysMemMap (h : KInv T k) {srcid srcva dstid dstva perm : Word}
    (hrun : sysMemMap srcid srcva dstid dstva perm k = .ok r k') :
    ∃ e e' pp, k.envOf srcid = some e ∧ k.pageAt e srcva = some pp ∧ k.envOf dstid = some e' ∧
      (k'.MapsPage e' dstva pp ↔ Fits perm pp) := by
  obtain ⟨-, hva, e, e', pp, m, henv, hpage, ⟨_, _, -, htgt⟩, henv', he', hcase, rfl⟩ :=
    (h.wp_sysMemMap_cases srcid srcva dstid dstva perm).of_ok hrun
  have hpp := T.lt_max (h.pages.counted.tgt_pool _ _ htgt)
  refine ⟨e, e', pp, henv, hpage, henv', ?_⟩
  exact (h.pages.mapsPage_iff he' hva hpp hcase).trans fits_or_PTE_U

lemma KInv.mapsPage_sysIpcTrySend (h : KInv T k) {envid value srcva perm : Word}
    (hsrc : srcva ≠ 0#32) (hrun : sysIpcTrySend envid value srcva perm k = .ok r k') :
    ∃ c e pp, k.curenv = some c ∧ k.pageAt c srcva = some pp ∧ k.envOf envid = some e ∧
      (k'.MapsPage e (k.envs e).envIpcDstva pp ↔ Fits perm pp) := by
  obtain ⟨-, c, e, q, hc, henv, he, -, -,
      ⟨h0, -⟩ | ⟨-, pp, m, hpage, ⟨_, _, -, htgt⟩, hcase, rfl⟩⟩ :=
    (h.wp_sysIpcTrySend_cases envid value srcva perm).of_ok hrun
  · exact absurd h0 hsrc
  have hpp := T.lt_max (h.pages.counted.tgt_pool _ _ htgt)
  refine ⟨c, e, pp, hc, hpage, henv, ?_⟩
  have hdir : ((k.woken c e value perm q).envs e).envPgdir = (k.envs e).envPgdir := by
    simp [Kernel.woken]
  rw [Kernel.MapsPage, hdir]
  exact (h.pages.mapsPage_iff he (h.dstva e) hpp hcase).trans fits_or_PTE_U

end

/-- **A mapping call maps the page it is asked to, exactly when the permission fits the page.**  For
every call that returns 0 and every permission word, in every state that admissible events lead to:
the call found a page and a place for it, and the page is there afterwards if and only if the
permission adds no bit to its page number. -/
theorem mapping_calls_iff {mc : Machine} {k k' : Kernel} {call : Syscall} {tf : Trapframe}
    (h : Reaches mc (fun k ev => ev.Admissible k) k) (hmaps : call.Maps)
    (hrun : call.run (k.entering tf) = .ok 0#32 k') :
    ∃ e va pp perm, call.destination k = some (e, va) ∧ call.mapped k = some (pp, perm) ∧
      (k'.MapsPage e va pp ↔ Fits perm pp) := by
  obtain ⟨T, -, -, -, hinv⟩ := h.kInv fun _ _ hc => hc
  have hk : KInv T (k.entering tf) := hinv.of_eq rfl rfl rfl rfl rfl rfl
  cases call with
  | memAlloc envid va perm =>
      obtain ⟨e, pp, henv, hfree, hiff⟩ := hk.mapsPage_sysMemAlloc hrun
      exact ⟨e, va, pp, perm, Option.map_eq_some_iff.mpr ⟨e, henv, rfl⟩,
        Option.map_eq_some_iff.mpr ⟨pp, hfree, rfl⟩, hiff⟩
  | memMap srcid srcva dstid dstva perm =>
      obtain ⟨e, e', pp, henv, hpage, henv', hiff⟩ := hk.mapsPage_sysMemMap hrun
      exact ⟨e', dstva, pp, perm, Option.map_eq_some_iff.mpr ⟨e', henv', rfl⟩,
        Option.bind_eq_some_iff.mpr ⟨e, henv, Option.map_eq_some_iff.mpr ⟨pp, hpage, rfl⟩⟩, hiff⟩
  | ipcTrySend envid value srcva perm =>
      obtain ⟨c, e, pp, hc, hpage, henv, hiff⟩ := hk.mapsPage_sysIpcTrySend hmaps hrun
      refine ⟨e, (k.envs e).envIpcDstva, pp, perm, ?_, ?_, hiff⟩
      · rw [Syscall.destination, if_neg hmaps]
        exact Option.map_eq_some_iff.mpr ⟨e, henv, rfl⟩
      · rw [Syscall.mapped, if_neg hmaps]
        exact Option.bind_eq_some_iff.mpr ⟨c, hc, Option.map_eq_some_iff.mpr ⟨pp, hpage, rfl⟩⟩
  | _ => exact hmaps.elim

/-- An env with pages to spare gets one. -/
lemma KInv.exists_memAlloc {T : Template} {k : Kernel} {c pp : ℕ} {rest : List ℕ} {va perm : Word}
    (h : KInv T k) (hcur : k.curenv = some c) (hva : isIllegalVa va = false)
    (hf : k.pm.pageFreeList = pp :: rest) (hrest : rest ≠ []) :
    ∃ m, InsertCase (k.pm.take pp rest) (k.envs c).envPgdir pp va (perm ||| PTE_U) m ∧
      sysMemAlloc 0#32 va perm k = .ok 0#32 { k with pm := m } := by
  obtain ⟨d, hd, hcur'⟩ := h.cur c hcur
  obtain ⟨hlive, rfl⟩ := dirs_eq_some.mp hd
  have hlt := isIllegalVa_eq_false (show ¬ isIllegalVa va = true by simp [hva])
  have hwp : Prog.wp (sysMemAlloc 0#32 va perm) k (fun r k' => r = 0#32 ∧ ∃ m,
      InsertCase (k.pm.take pp rest) (k.envs c).envPgdir pp va (perm ||| PTE_U) m ∧
      k' = { k with pm := m }) (fun _ _ => False) fun _ => False := by
    have hself : k.Resolves 0#32 true c := .self rfl hcur
    rw [sysMemAlloc, if_neg (by simp [hva]), hself.wp, Prog.wp_bind, wp_liftPm,
      wp_pageAlloc_cons hf, Prog.wp_bind, Prog.wp_get, Prog.wp_bind, wp_liftPm]
    refine ((h.pages.take hf).wp_pageInsert_cases _ _ hd (lt_ULIM_of_lt_UTOP hlt)
      (own_of_lt_UTOP hlt) (h.pages.fresh hf).1).mono ?_ ?_ fun _ hp => hp
    · exact fun _ m hcase => ⟨rfl, m, hcase, rfl⟩
    · rintro x m ⟨-, -, hnil⟩
      exact hrest hnil
  obtain ⟨r, k', hrun, rfl, m, hcase, rfl⟩ := hwp.exists_ok
  exact ⟨m, hcase, hrun⟩

lemma not_calls_tickFrame (call : Syscall) : ¬ tickFrame.Calls call :=
  fun h => absurd h.1 (by decide)

/-- A tick maps nothing. -/
lemma Event.admissible_tick (k : Kernel) : (Event.trap tickFrame).Admissible k :=
  fun call hcall => absurd hcall (not_calls_tickFrame call)

lemma exists_two_free {l : List ℕ} (h : 2 ≤ l.length) : ∃ pp t rest, l = pp :: t :: rest := by
  obtain ⟨pp, l', rfl⟩ := List.exists_cons_of_length_pos (show 0 < l.length by omega)
  rw [List.length_cons] at h
  obtain ⟨t, rest, rfl⟩ := List.exists_cons_of_length_pos (show 0 < l'.length by omega)
  exact ⟨pp, t, rest, rfl⟩

/-- On the small machine an env asks for a page, with any permission, and gets it. -/
lemma exists_memAlloc_small (perm : Word) : ∃ k pp k',
    Reaches (smallMachine false) (fun k ev => ev.Admissible k) k ∧ k.curenv = some 0 ∧
      pp < 0x4000 ∧ (Syscall.memAlloc 0#32 UCOW perm).mapped k = some (pp, perm) ∧
      (Syscall.memAlloc 0#32 UCOW perm).run
        (k.entering (Syscall.memAlloc 0#32 UCOW perm).frame) = .ok 0#32 k' ∧
      ∃ w, k'.pm.entryAt (k'.envs 0).envPgdir UCOW = some w ∧
        ptePpn w = ptePpn (pteOf pp ||| entryFlags (perm ||| PTE_U)) := by
  obtain ⟨k₀, T, k, hk₀, hk, -, hcur, hpop⟩ := exists_started false
    (C := fun k ev => ev.Admissible k) (fun _ _ => trivial) Event.admissible_tick
    (show 0 < NASID by decide)
  have hroom : 2 ≤ k.pm.pageFreeList.length := by
    have hfix := smallMachine_room false (c := 2) (by decide)
    have hlen := hpop.room
    omega
  obtain ⟨pp, t, rest, hf⟩ := exists_two_free hroom
  have hlt : pp < 0x4000 := by
    have := T.lt_npage pp (hpop.kInv.pages.fresh hf).1
    rwa [hpop.npage_eq] at this
  have hent : KInv T (k.entering (Syscall.memAlloc 0#32 UCOW perm).frame) :=
    hpop.kInv.of_eq rfl rfl rfl rfl rfl rfl
  obtain ⟨m, hcase, hrun⟩ :=
    hent.exists_memAlloc hcur (show isIllegalVa UCOW = false by decide) hf (by simp)
  have hd : k.dirs 0 = some (k.envs 0).envPgdir := by
    obtain ⟨d, hd, -⟩ := hpop.kInv.cur 0 hcur
    obtain ⟨-, rfl⟩ := dirs_eq_some.mp hd
    exact hd
  have htake := hpop.kInv.pages.take hf
  refine ⟨k, pp, _, hk.reaches hk₀, hcur, hlt, by rw [Syscall.mapped, hf]; rfl, hrun, _,
    (htake.entryAt_insert hd (by decide) hcase (by decide)).trans (if_pos rfl), ?_⟩
  exact ptePpn_insertedWord fun w hold =>
    htake.clean_entryAt hd (own_of_lt_UTOP (by decide)) hold

/-- **A permission with bits of the page number maps another page**: `va2pa` is not the address of
the page that was allocated. -/
theorem memAlloc_other_page : ∃ k pp k',
    Reaches (smallMachine false) (fun k ev => ev.Admissible k) k ∧ k.curenv = some 0 ∧
      (Syscall.memAlloc 0#32 UCOW 0xFFFFFC00#32).mapped k = some (pp, 0xFFFFFC00#32) ∧
      (Syscall.memAlloc 0#32 UCOW 0xFFFFFC00#32).run
        (k.entering (Syscall.memAlloc 0#32 UCOW 0xFFFFFC00#32).frame) = .ok 0#32 k' ∧
      va2pa k'.pm (k'.envs 0).envPgdir UCOW = 0xFFFFF000#32 ∧ page2pa pp ≠ 0xFFFFF000#32 := by
  obtain ⟨k, pp, k', hk, hcur, hlt, hm, hrun, w, hw, hppn⟩ := exists_memAlloc_small 0xFFFFFC00#32
  refine ⟨k, pp, k', hk, hcur, hm, hrun, ?_, fun hpa => ?_⟩
  · -- every bit of the page number is set
    have hall : ptePpn w = 0x3FFFFF#32 := by
      rw [hppn]
      have hflags : entryFlags (0xFFFFFC00#32 ||| PTE_U) = 0xFFFFFCD3#32 := by decide
      rw [hflags, ptePpn, BitVec.ushiftRight_or_distrib]
      refine BitVec.eq_of_getLsbD_eq fun i hi => ?_
      simp only [BitVec.getLsbD_or, BitVec.getLsbD_ushiftRight]
      interval_cases i <;> simp
    rw [va2pa_eq, hw, Option.map_some, Option.getD_some, ← BitVec.toNat_inj, pte2paddr_toNat, hall]
    decide
  · have hnat := page2pa_toNat (show pp < 0x80000 by omega)
    rw [hpa] at hnat
    change 0xFFFFF000 = _ at hnat
    omega

/-- With the permissions of a fresh page the page is mapped. -/
theorem mapping_calls_iff_small : ∃ (k : Kernel) (pp : ℕ) (k' : Kernel),
    Reaches (smallMachine false) (fun k ev => ev.Admissible k) k ∧ k.curenv = some 0 ∧
      (Syscall.memAlloc 0#32 UCOW PTE_W).mapped k = some (pp, PTE_W) ∧ Fits PTE_W pp ∧
      k'.MapsPage 0 UCOW pp := by
  obtain ⟨k, pp, k', hk, hcur, hlt, hm, hrun, -⟩ := exists_memAlloc_small PTE_W
  have hfits : Fits PTE_W pp := fits_of_lt (by decide) pp
  obtain ⟨e, va, pp', perm, hdest, hm', hiff⟩ :=
    mapping_calls_iff hk (show (Syscall.memAlloc 0#32 UCOW PTE_W).Maps from trivial) hrun
  obtain ⟨rfl, rfl⟩ : pp = pp' ∧ PTE_W = perm := by
    simpa using hm.symm.trans hm'
  rw [Syscall.destination, Kernel.envOf, if_pos rfl, hcur] at hdest
  obtain ⟨rfl, rfl⟩ : 0 = e ∧ UCOW = va := by simpa using hdest
  exact ⟨k, pp, k', hk, hcur, hm, hfits, hiff.mpr hfits⟩

/-! ## Above `UTOP` -/

/-- The page-directory entries at and above `UTOP` of every live env are those that `env_setup_vm`
installed: the template's of `k₀`, and none in `[UVPT, ULIM)`; and so are the mappings there. -/
def Kernel.AboveUtop (k k₀ : Kernel) : Prop :=
  ∀ e, (k.envs e).envStatus ≠ .free →
    (∀ i, PDX UTOP ≤ i → i < 1024 → k.pm.mem (k.envs e).envPgdir i =
      if i = PDX UVPT then 0#32 else k₀.pm.mem k₀.basePgdir i) ∧
    ∀ va, UTOP ≤ va → va < ULIM → k.pm.entryAt (k.envs e).envPgdir va =
      if UVPT ≤ va then none else k₀.pm.entryAt k₀.basePgdir va

lemma KInv.aboveUtop {T : Template} {k₀ k : Kernel} (h : KInv T k) (h₀ : KInv T k₀)
    (hgap : T.gap = false) : k.AboveUtop k₀ := by
  intro e he
  have hd := dirs_of_ne_free he
  have hown : ∀ {i}, PDX UTOP ≤ i → T.own i = false := by
    intro i hi
    rw [Template.own, decide_eq_false_iff_not, hgap]
    rintro (hc | hc)
    · omega
    · exact absurd hc.1 (by decide)
  have hdir : ∀ i, PDX UTOP ≤ i → i < 1024 → k.pm.mem (k.envs e).envPgdir i =
      if i = PDX UVPT then 0#32 else k₀.pm.mem k₀.basePgdir i := by
    intro i hlo hi
    rw [h.pages.template e _ hd i hi (hown hlo), Template.entry, h₀.base_eq,
      h₀.pages.fixed _ T.base_notMem]
    by_cases hc : i = PDX UVPT
    · rw [if_pos (.inr hc), if_pos hc]
    · rw [if_neg (by omega), if_neg hc]
  refine ⟨hdir, fun va hlo hhi => ?_⟩
  have hge : PDX UTOP ≤ PDX va := by
    rw [← not_lt, ← lt_UTOP_iff]
    exact BitVec.not_lt.mpr hlo
  have hlt := (lt_ULIM_iff va).mp hhi
  have hva := hdir (PDX va) hge (PDX_lt va)
  have hwin : UVPT ≤ va ↔ PDX va = PDX UVPT := by
    rw [BitVec.lt_def, ULIM_toNat] at hhi
    rw [BitVec.le_def, show UVPT.toNat = 0x7fc00000 by decide, PDX_UVPT, PDX_eq]
    omega
  split_ifs with hc
  · rw [if_pos (hwin.mp hc)] at hva
    rw [Pmap.entryAt, Pmap.walk, Pmap.pde, hva, if_neg (by decide)]
    rfl
  · rw [if_neg (mt hwin.mpr hc)] at hva
    refine entryAt_congr hva fun hv => ?_
    -- the page table is the template's, and it is not in the pool
    have hbase : k₀.pm.pde k₀.basePgdir va = T.mem T.base (PDX va) := by
      rw [Pmap.pde, h₀.base_eq, h₀.pages.fixed _ T.base_notMem]
    have hent : T.entry (PDX va) = T.mem T.base (PDX va) := by
      rw [Template.entry, if_neg]
      rintro (hc' | hc')
      · omega
      · exact hc (hwin.mpr hc')
    rw [hbase] at hv ⊢
    obtain ⟨-, hlo', hhi'⟩ := T.shared_of_entry hlt (hown hge) (by rwa [hent])
    have hnot := (T.shared (PDX va) hlo' hhi' hv).1
    rw [h.pages.fixed _ hnot, h₀.pages.fixed _ hnot]

/-- The frame of a store fault at `UVPT`. -/
def windowFrame : Trapframe := { zeroTf with cause := CAUSE_FAULT_STORE, badvaddr := UVPT }

/-- … and lets a fresh page be mapped there, where the window has no page table yet. -/
lemma KInv.wp_windowFault {T : Template} {k : Kernel} {c : ℕ} (h : KInv T k)
    (hc : k.curenv = some c) (hv : ¬ HasFlag (k.pm.pde (k.envs c).envPgdir UVPT) PTE_V)
    (hroom : 2 ≤ k.pm.pageFreeList.length) :
    Prog.wp (trap windowFrame) k (fun _ k' => ∃ m pp rest, k.pm.pageFreeList = pp :: rest ∧
        InsertCase (k.pm.take pp rest) (k.envs c).envPgdir pp UVPT (PTE_W ||| PTE_U) m ∧
        k' = { k with ktf := windowFrame, pm := m })
      (fun _ _ => False) (fun _ => False) := by
  obtain ⟨d, hd, hcur⟩ := h.cur c hc
  obtain ⟨hlive, rfl⟩ := dirs_eq_some.mp hd
  have hwalk : k.pm.walk (k.envs c).envPgdir UVPT = none := by
    rw [Pmap.walk, if_neg hv]
  have hro : k.pm.readOnlyAt (k.envs c).envPgdir windowFrame.badvaddr = false := by
    change k.pm.readOnlyAt (k.envs c).envPgdir UVPT = false
    rw [Pmap.readOnlyAt, Pmap.entryAt, hwalk]
    rfl
  obtain ⟨pp, t, rest, hf⟩ := exists_two_free hroom
  have htake := h.pages.take hf
  have hpp := T.lt_max (h.pages.fresh hf).1
  have hdpp : (k.envs c).envPgdir ≠ pp := fun hc =>
    h.pages.counted.free_unref pp (by simp [hf]) (.dir c) (hc ▸ hd)
  have hpde : (k.pm.take pp (t :: rest)).pde (k.envs c).envPgdir UVPT =
      k.pm.pde (k.envs c).envPgdir UVPT := by
    rw [Pmap.pde, Pmap.take_mem_of_ne _ _ hdpp, Pmap.pde]
  have hself : ∀ {f}, ¬ (k.pm.take pp (t :: rest)).TableAt (k.envs c).envPgdir UVPT f :=
    fun ht => hv (hpde ▸ ht.1)
  have halloc : ∀ d asid, passiveAlloc UVPT d asid = (do
      let p ← panicOn pageAlloc
      panicOn (pageInsert d asid p UVPT (PTE_W ||| PTE_U))) := by
    intro d asid
    rw [passiveAlloc, if_neg (by decide), if_neg (by decide), if_neg (by decide),
      if_neg (by decide),
      if_neg (by decide)]
  have hcause : windowFrame.cause = CAUSE_FAULT_STORE := rfl
  rw [wp_trap_storeFault hcause hcur hro]
  have hcur₁ : Kernel.curPgdir { k with ktf := windowFrame } = some (k.envs c).envPgdir := hcur
  change Prog.wp (doTlbRefill UVPT _) _ _ _ _
  rw [wp_doTlbRefill_unmapped hcur₁ hwalk, wp_liftPm, halloc, Prog.wp_bind, wp_panicOn,
    wp_pageAlloc_cons hf, wp_panicOn]
  refine (pageInsert_cases _ _ (by decide) hpp htake.free_lt hself).mono ?_ ?_ ?_
  · exact fun _ m' hcase => ⟨m', pp, t :: rest, hf, hcase, rfl⟩
  · rintro x m' ⟨-, -, hnil, -⟩
    simp at hnil
  · rintro p ⟨t', ht, -⟩
    exact absurd ht hself

end MosRv
