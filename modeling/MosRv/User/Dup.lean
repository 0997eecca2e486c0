import MosRv.User.Close

/-!
# Making an alias of a descriptor (`dup`)

`dup` closes the new number, copies the mappings of the window, page by page, and maps the `struct
Fd` page last.  It copies what there is: a page that the old number does not have is not looked at,
and stays mapped for the new number if `close` has left it.  If the old number and the new one are
the same, `close` unmaps what is to be copied.  `dup_iff` says when all is as it should be.
-/

namespace MosRv.Fd

open Prog

/-! ## What `dup` copies -/

/-- How `dup` maps what is mapped as `m`. -/
def aliasOf (m : Mapping) : Mapping := ⟨m.page, givenFlags (m.perm &&& (PTE_W ||| PTE_LIBRARY))⟩

/-- The entry of the page directory for the window of a descriptor. -/
def dataTable (newfd : Word) : ℕ := pn (fd2data newfd) / 1024

/-- `page_alloc` has an answer whenever `dup` comes to ask for a page table. -/
def Process.Supplied (s : Process) (o : ℕ) (newfd : Word) : Prop :=
  (∀ k, s.grants k ≠ none) ∨
    ((∀ i < 1024, s.entry (dataPage o + i) = none) ∨ s.tables (dataTable newfd) = true) ∧
      s.tables (pn newfd / 1024) = true

/-- The first `j` pages of the window are copied to that of `newfd`, wherever it is, and nothing
else has changed. -/
structure Copied (o : ℕ) (newfd : Word) (j : ℕ) (s t : Process) : Prop where
  env : t.env = s.env
  mem : t.mem = s.mem
  copied : ∀ i < j, ∀ m, s.entry (dataPage o + i) = some m →
    t.entry (pn (pageOf (fd2data newfd) i)) = some (aliasOf m)
  kept : ∀ q, (∀ i < j, (s.entry (dataPage o + i)).isSome → q ≠ pn (pageOf (fd2data newfd) i)) →
    t.entry q = s.entry q
  legal : ∀ i < j, (s.entry (dataPage o + i)).isSome →
    isIllegalVa (pageOf (fd2data newfd) i) = false
  tables : ∀ i, s.tables i = true → t.tables i = true
  grants : ∃ n, ∀ k, t.grants k = s.grants (k + n)

/-- The `struct Fd` page is mapped as well. -/
def Finished (o : ℕ) (newfd : Word) (s t : Process) : Prop :=
  ∃ u m, Copied o newfd 1024 s u ∧ isIllegalVa newfd = false ∧ u.entry (fdPage o) = some m ∧
    ∀ q, t.entry q = (u.setEntry (pn newfd) (some (aliasOf m))).entry q

/-- The pages that `err:` unmaps, of those that there are calls for. -/
def Target (newfd : Word) (q : ℕ) : Prop :=
  isIllegalVa newfd = false ∧ q = pn newfd ∨
    ∃ i < 1024, isIllegalVa (pageOf (fd2data newfd) i) = false ∧ q = pn (pageOf (fd2data newfd) i)

/-- A mapping that `dup` has to make is not allowed. -/
def Blocked (s : Process) (o : ℕ) (newfd : Word) : Prop :=
  isIllegalVa newfd = true ∨ ∃ i < 1024, (s.entry (dataPage o + i)).isSome ∧
    isIllegalVa (pageOf (fd2data newfd) i) = true

/-- How copying fails: if there are page tables enough, a mapping is not allowed, or there is
nothing to be mapped. -/
structure Failed (o : ℕ) (newfd : Word) (s t : Process) : Prop where
  blocked : s.Supplied o newfd → Blocked s o newfd ∨ s.entry (fdPage o) = none
  env : t.env = s.env
  mem : t.mem = s.mem
  kept : ∀ q, ¬ Target newfd q → t.entry q = s.entry q

/-- All pages have been copied, and nothing else has changed. -/
structure Done (o n : ℕ) (s t : Process) : Prop where
  fd : ∃ m, s.entry (fdPage o) = some m ∧ t.entry (fdPage n) = some (aliasOf m)
  window : ∀ i < 1024, ∀ m, s.entry (dataPage o + i) = some m →
    t.entry (dataPage n + i) = some (aliasOf m)
  kept : ∀ q, q ≠ fdPage n → (∀ i < 1024, (s.entry (dataPage o + i)).isSome → q ≠ dataPage n + i) →
    t.entry q = s.entry q

/-- The pages of a descriptor. -/
def OfFd (d p : ℕ) : Prop := p = fdPage d ∨ ∃ i < 1024, p = dataPage d + i

/-- A call has failed, and the new number has no page any more. -/
structure Undone (o n : ℕ) (s t : Process) : Prop where
  failed : (∀ i < 1024, s.entry (dataPage o + i) = none) ∨ s.tables (dataPage n / 1024) = true →
    s.entry (fdPage o) = none
  gone : ∀ p, OfFd n p → t.entry p = none
  kept : ∀ p, ¬ OfFd n p → t.entry p = s.entry p

section

variable {s t : Process} {o n i j : ℕ} {newfd : Word} {m : Mapping}

/-- Windows begin at multiples of 4 MiB. -/
lemma pn_pageOf_mod (newfd : Word) (hi : i < 1024) : pn (pageOf (fd2data newfd) i) % 1024 = i := by
  rw [pn_eq, pageOf, fd2data, index2data, BitVec.toNat_add, BitVec.toNat_add, BitVec.toNat_mul,
    BitVec.toNat_ofNat, show FILEBASE.toNat = 0x60000000 by decide,
      show PDMAP.toNat = 0x400000 by decide]
  omega

/-- One page table holds the whole window. -/
lemma pn_pageOf_div (newfd : Word) (hi : i < 1024) :
    pn (pageOf (fd2data newfd) i) / 1024 = dataTable newfd := by
  rw [dataTable, pn_eq, pn_eq, pageOf, fd2data, index2data, BitVec.toNat_add, BitVec.toNat_add,
    BitVec.toNat_mul, BitVec.toNat_ofNat, show FILEBASE.toNat = 0x60000000 by decide,
    show PDMAP.toNat = 0x400000 by decide]
  omega

lemma pn_pageOf_ne (newfd : Word) (hi : i < 1024) (hj : j < 1024) (hne : i ≠ j) :
    pn (pageOf (fd2data newfd) i) ≠ pn (pageOf (fd2data newfd) j) := by
  intro heq
  rw [← pn_pageOf_mod newfd hi, heq, pn_pageOf_mod newfd hj] at hne
  exact hne rfl

namespace Copied

lemma zero (s : Process) : Copied o newfd 0 s s where
  env := rfl
  mem := rfl
  copied i hi := absurd hi (Nat.not_lt_zero i)
  kept _ _ := rfl
  legal i hi := absurd hi (Nat.not_lt_zero i)
  tables _ h := h
  grants := ⟨0, fun _ => rfl⟩

/-- There is a page table for the next copy, or an answer. -/
lemma supplied_data (h : Copied o newfd j s t) (hs : s.Supplied o newfd) (hi : i < 1024)
    (hm : s.entry (dataPage o + i) = some m) (hnone : t.grants 0 = none) :
    t.tables (dataTable newfd) = true := by
  obtain ⟨n, hgrants⟩ := h.grants
  rw [hgrants] at hnone
  obtain hall | ⟨hempty | hdata, -⟩ := hs
  · exact absurd hnone (hall _)
  · exact absurd (hm.symm.trans (hempty i hi)) nofun
  · exact h.tables _ hdata

/-- There is one for the `struct Fd` page, or an answer. -/
lemma supplied_fd (h : Copied o newfd j s t) (hs : s.Supplied o newfd) (hnone : t.grants 0 = none) :
    t.tables (pn newfd / 1024) = true := by
  obtain ⟨n, hgrants⟩ := h.grants
  rw [hgrants] at hnone
  obtain hall | ⟨-, hfd⟩ := hs
  · exact absurd hnone (hall _)
  · exact h.tables _ hfd

/-- Even if the windows are the same, a page that is not copied yet is as it was. -/
lemma source (h : Copied o newfd j s t) (hj : j < 1024) :
    t.entry (dataPage o + j) = s.entry (dataPage o + j) := by
  apply h.kept
  intro i hi _ heq
  have hmod := pn_pageOf_mod newfd (show i < 1024 by omega)
  rw [← heq, dataPage] at hmod
  omega

/-- Pages that were mapped are mapped. -/
lemma mapped (h : Copied o newfd j s t) {q : ℕ} (hq : (s.entry q).isSome) : (t.entry q).isSome := by
  by_cases hcopy : ∃ i < j, (s.entry (dataPage o + i)).isSome ∧ q = pn (pageOf (fd2data newfd) i)
  · obtain ⟨i, hi, hsome, rfl⟩ := hcopy
    obtain ⟨m, hm⟩ := Option.isSome_iff_exists.mp hsome
    rw [h.copied i hi m hm]
    rfl
  · rw [h.kept q fun i hi hsome heq => hcopy ⟨i, hi, hsome, heq⟩]
    exact hq

/-- There is no page to copy. -/
lemma skip (h : Copied o newfd j s t) (hnone : s.entry (dataPage o + j) = none) :
    Copied o newfd (j + 1) s t := by
  refine ⟨h.env, h.mem, fun i hi m hm => ?_, fun q hq => h.kept q fun i hi => hq i (by omega),
    fun i hi hsome => ?_, h.tables, h.grants⟩
  · obtain hi | rfl := Nat.lt_succ_iff_lt_or_eq.mp hi
    · exact h.copied i hi m hm
    · exact absurd (hm.symm.trans hnone) (by simp)
  · obtain hi | rfl := Nat.lt_succ_iff_lt_or_eq.mp hi
    · exact h.legal i hi hsome
    · rw [hnone] at hsome
      exact absurd hsome (by simp)

/-- `page_alloc` has been asked. -/
lemma advance (h : Copied o newfd j s t) : Copied o newfd j s t.advance := by
  obtain ⟨n, hgrants⟩ := h.grants
  refine ⟨h.env, h.mem, h.copied, h.kept, h.legal, h.tables, n + 1, fun k => ?_⟩
  change t.grants (k + 1) = _
  rw [hgrants, Nat.add_assoc, Nat.add_comm 1]

/-- A page is copied. -/
lemma copy (h : Copied o newfd j s t) (hj : j < 1024) (hm : s.entry (dataPage o + j) = some m)
    (hlegal : isIllegalVa (pageOf (fd2data newfd) j) = false) :
    Copied o newfd (j + 1) s (t.setEntry (pn (pageOf (fd2data newfd) j)) (some (aliasOf m))) := by
  refine ⟨h.env, h.mem, fun i hi m' hm' => ?_, fun q hq => ?_, fun i hi hsome => ?_, fun i hi => ?_,
    h.grants⟩
  · obtain hi | rfl := Nat.lt_succ_iff_lt_or_eq.mp hi
    · rw [Process.entry_setEntry_of_ne (pn_pageOf_ne newfd (by omega) hj hi.ne)]
      exact h.copied i hi m' hm'
    · obtain rfl := Option.some.inj (hm.symm.trans hm')
      exact Process.entry_setEntry_self
  · rw [Process.entry_setEntry_of_ne (hq j (by omega) (by simp [hm]))]
    exact h.kept q fun i hi => hq i (by omega)
  · obtain hi | rfl := Nat.lt_succ_iff_lt_or_eq.mp hi
    · exact h.legal i hi hsome
    · exact hlegal
  · exact Bool.or_eq_true_iff.mpr (.inl (h.tables i hi))

/-- No page of the window is there. -/
lemma all (hnone : ∀ i < 1024, s.entry (dataPage o + i) = none) (hj : j ≤ 1024) :
    Copied o newfd j s s := by
  induction j with
  | zero => exact zero s
  | succ j ih => exact (ih (by omega)).skip (hnone j (by omega))

/-- What has changed is what `err:` unmaps. -/
lemma failed (h : Copied o newfd j s t) (hj : j ≤ 1024)
    (hblocked : s.Supplied o newfd → Blocked s o newfd ∨ s.entry (fdPage o) = none) :
    Failed o newfd s t where
  blocked := hblocked
  env := h.env
  mem := h.mem
  kept := by
    intro q hq
    apply h.kept
    intro i hi hsome heq
    exact hq (.inr ⟨i, by omega, h.legal i hi hsome, heq⟩)

end Copied

/-- It is the one at which the window of a number in range begins. -/
lemma dataPage_div (hi : i < 1024) : (dataPage o + i) / 1024 = dataPage o / 1024 := by
  unfold dataPage
  omega

/-- A window without a page table is empty. -/
lemma window_or_table (s : Process) (o : ℕ) :
    (∀ i < 1024, s.entry (dataPage o + i) = none) ∨ s.tables (dataPage o / 1024) = true := by
  by_cases htable : s.tables (dataPage o / 1024) = true
  · exact .inr htable
  · left
    intro i hi
    apply entry_eq_none
    rwa [dataPage_div hi, ← Bool.not_eq_true]

/-- All `struct Fd` pages are in one page table. -/
lemma tables_fdPage (ho : o < 32) (hn : n < 32) (hopen : (s.entry (fdPage o)).isSome) :
    s.tables (fdPage n / 1024) = true := by
  have htable := s.held _ hopen
  have hdiv : fdPage o / 1024 = fdPage n / 1024 := by
    unfold fdPage
    omega
  rwa [hdiv] at htable

lemma PDX_data (ho : o < 32) :
    PDX (fd2data (index2fd (BitVec.ofNat 32 o))) = dataPage o / 1024 := by
  rw [PDX_eq, fd2data_toNat (fd_lt ho), toNat_fd ho, dataPage]
  omega

lemma window_data (ho : o < 32) (hi : i < 1024) :
    s.window (VPN (pageOf (fd2data (index2fd (BitVec.ofNat 32 o))) i)) =
      some ((s.entry (dataPage o + i)).map Mapping.perm) := by
  have h := window_toNat ho hi
  rw [window_of_lt (by omega), pn_pageOf ho hi]

/-- The loop over the window. -/
lemma wp_dupWindow (ho : o < 32) (newfd : Word) (s : Process) :
    wp (dupWindow (fd2data (index2fd (BitVec.ofNat 32 o))) (fd2data newfd)) s
      (fun _ t => Copied o newfd 1024 s t) (fun r t => r.msb = true ∧ Failed o newfd s t)
      fun _ => False := by
  rw [dupWindow, wp_bind, wp_readVpd, PDX_data ho, wp_ite]
  refine ⟨fun _ => ?_, fun htable => Copied.all (fun i hi => ?_) le_rfl⟩
  · apply (wp_forRange (fun i t => Copied o newfd i s t) 1024 0 (Copied.zero s) _).imp
    · intro _ t h
      exact h
    · intro i t _ hi h
      have hi : i < 1024 := by omega
      rw [dupPage, wp_bind, wp_readVpt (window_data ho hi), h.source hi, wp_ite]
      cases hm : s.entry (dataPage o + i) with
      | none => exact ⟨fun h => absurd h nofun, fun _ => h.skip hm⟩
      | some m =>
          refine ⟨fun _ => ?_, fun h => absurd rfl h⟩
          by_cases hlegal : isIllegalVa (pageOf (fd2data newfd) i) = true
          · rw [syscallMemMap, if_pos (.inr hlegal), wp_exit]
            exact ⟨by decide, h.failed hi.le fun _ => .inl (.inr ⟨i, hi, by rw [hm]; rfl, hlegal⟩)⟩
          · rw [Bool.not_eq_true] at hlegal
            have hm' : t.entry (pn (pageOf (fd2data (index2fd (BitVec.ofNat 32 o))) i)) =
                some m := by
              rw [pn_pageOf ho hi, h.source hi, hm]
            rw [wp_syscallMemMap (pageOf_legal ho hi) hlegal hm', pn_pageOf_div newfd hi]
            refine ⟨fun _ => h.copy hi hm hlegal, fun htable => ⟨fun hnone => ?_, fun _ _ => ?_⟩⟩
            · refine ⟨by decide, h.advance.failed hi.le fun hs => ?_⟩
              exact absurd (htable.symm.trans (h.supplied_data hs hi hm hnone)) Bool.false_ne_true
            · exact h.advance.copy hi hm hlegal
  · rw [Bool.not_eq_true] at htable
    apply entry_eq_none
    rwa [dataPage_div hi]

/-- **What `dup` copies**, to any new `struct Fd`, or how it fails. -/
lemma wp_dupPages (ho : o < 32) (newfd : Word) (s : Process) :
    wp (dupPages (index2fd (BitVec.ofNat 32 o)) newfd) s (fun _ t => Finished o newfd s t)
      (fun r t => r.msb = true ∧ Failed o newfd s t) fun _ => False := by
  rw [dupPages, wp_bind]
  apply (wp_dupWindow ho newfd s).imp
  intro _ t h
  rw [dupFd, wp_bind, wp_readVpt (window_fd ho)]
  by_cases hlegal : isIllegalVa newfd = true
  · rw [syscallMemMap, if_pos (.inr hlegal), wp_exit]
    exact ⟨by decide, h.failed le_rfl fun _ => .inl (.inl hlegal)⟩
  · rw [Bool.not_eq_true] at hlegal
    cases hm : t.entry (fdPage o) with
    | none =>
        have hnone : t.entry (pn (index2fd (BitVec.ofNat 32 o))) = none := by
          rw [pn_fd ho, hm]
        rw [syscallMemMap, if_neg (by simp [fd_legal ho, hlegal]), wp_bind, wp_get, hnone]
        refine ⟨by decide, h.failed le_rfl fun _ => .inr ?_⟩
        by_contra hsome
        rw [← ne_eq, Option.ne_none_iff_isSome] at hsome
        have hmapped := h.mapped hsome
        rw [hm] at hmapped
        exact absurd hmapped (by simp)
    | some m =>
        have hm' : t.entry (pn (index2fd (BitVec.ofNat 32 o))) = some m := by
          rw [pn_fd ho, hm]
        rw [wp_syscallMemMap (fd_legal ho) hlegal hm']
        refine ⟨fun _ => ⟨t, m, h, hlegal, hm, fun _ => rfl⟩, fun htable =>
          ⟨fun hnone => ?_, fun _ _ => ?_⟩⟩
        · refine ⟨by decide, h.advance.failed le_rfl fun hs => ?_⟩
          exact absurd (htable.symm.trans (h.supplied_fd hs hnone)) Bool.false_ne_true
        · exact ⟨t.advance, m, h.advance, hlegal, hm, fun _ => rfl⟩

lemma Finished.not_blocked (h : Finished o newfd s t) : ¬ Blocked s o newfd := by
  obtain ⟨u, m, hcopied, hlegal, -⟩ := h
  intro hblocked
  obtain hill | ⟨i, hi, hsome, hill⟩ := hblocked
  · rw [hlegal] at hill
    exact absurd hill nofun
  · rw [hcopied.legal i hi hsome] at hill
    exact absurd hill nofun

/-- What this means where the new number is in range. -/
lemma Finished.done (h : Finished o (index2fd (BitVec.ofNat 32 n)) s t)
    (ho : o < 32) (hn : n < 32) :
    Done o n s t := by
  obtain ⟨u, m, hcopied, -, hm, ht⟩ := h
  have hpn : ∀ i < 1024, pn (pageOf (fd2data (index2fd (BitVec.ofNat 32 n))) i) = dataPage n + i :=
    fun i hi => pn_pageOf hn hi
  rw [pn_fd hn] at ht
  refine ⟨⟨m, ?_, ?_⟩, fun i hi m' hm' => ?_, fun q hq hq' => ?_⟩
  · rw [← hm, hcopied.kept]
    intro i hi _
    rw [hpn i hi]
    exact (dataPage_ne_fdPage ho i).symm
  · rw [ht, Process.entry_setEntry_self]
  · rw [ht, Process.entry_setEntry_of_ne (dataPage_ne_fdPage hn i), ← hpn i hi]
    exact hcopied.copied i hi m' hm'
  · rw [ht, Process.entry_setEntry_of_ne hq]
    apply hcopied.kept
    intro i hi hsome
    rw [hpn i hi]
    exact hq' i hi hsome

lemma wp_dupUndo (newfd : Word) (s : Process) {E : Word → Process → Prop} :
    wp (dupUndo newfd) s (fun _ t => Without (Target newfd) s t) E fun _ => False := by
  rw [dupUndo, wp_bind]
  apply (wp_unmap newfd s).imp
  intro _ t ht
  apply (wp_forRange (fun j u => Without (fun q => isIllegalVa newfd = false ∧ q = pn newfd ∨
    ∃ i < j, isIllegalVa (pageOf (fd2data newfd) i) = false ∧
      q = pn (pageOf (fd2data newfd) i)) s u)
    1024 0 (ht.congr fun q => by simp) _).imp
  · intro _ u hu
    exact hu.congr fun q => by simp [Target]
  · intro j u _ _ hu
    rw [wp_bind]
    apply (wp_unmap _ u).imp
    intro _ v hv
    refine (hu.trans hv).congr fun q => ?_
    rw [or_assoc]
    refine or_congr_right ?_
    constructor
    · intro h
      obtain ⟨i, hi, hq⟩ | hq := h
      · exact ⟨i, by omega, hq⟩
      · exact ⟨j, by omega, hq⟩
    · intro h
      obtain ⟨i, hi, hq⟩ := h
      obtain hi | rfl := Nat.lt_succ_iff_lt_or_eq.mp hi
      · exact .inl ⟨i, hi, hq⟩
      · exact .inr hq

end

/-! ## An alias -/

/-- What two mappings must have in common: the page, `PTE_W` and `PTE_LIBRARY`. -/
def shown (m : Option Mapping) : Option (ℕ × Word) :=
  m.map fun m => (m.page, m.perm &&& (PTE_W ||| PTE_LIBRARY))

/-- The new number maps what the old one maps, and nothing else; the old one is as it was. -/
structure Aliased (o n : ℕ) (s t : Process) : Prop where
  fd : shown (t.entry (fdPage n)) = shown (t.entry (fdPage o))
  window : ∀ i < 1024, shown (t.entry (dataPage n + i)) = shown (t.entry (dataPage o + i))
  old : ∀ p, OfFd o p → t.entry p = s.entry p

/-- The new number is closed, and its window is empty; the old one is as it was. -/
structure Dropped (o n : ℕ) (s t : Process) : Prop where
  new : ∀ p, OfFd n p → t.entry p = none
  old : ∀ p, OfFd o p → t.entry p = s.entry p

/-- **What `dup` is to do**: it comes back with the new number and an alias, or with an error and
without a trace of the new number. -/
def DupRight (io : Io) (o n : ℕ) (s : Process) : Prop :=
  wp (dup io (BitVec.ofNat 32 o) (BitVec.ofNat 32 n)) s
    (fun r t => r = BitVec.ofNat 32 n ∧ Aliased o n s t) (fun r t => r.msb = true ∧ Dropped o n s t)
    fun _ => False

/-- **When it does that.** -/
structure Process.DupFits (s : Process) (o n : ℕ) : Prop where
  /-- The loops of `file_close` end. -/
  ends : s.Ends n
  /-- Closing the new number takes no page of the old one. -/
  spares : ∀ p, OfFd o p → s.Closes n p → s.entry p = none
  /-- Closing the new number leaves it no page that the old one lacks. -/
  clears : ∀ i < 1024, s.entry (dataPage o + i) = none →
    s.entry (dataPage n + i) = none ∨ s.Closes n (dataPage n + i)
  /-- A descriptor of an unknown device is not closed: it becomes an alias of itself, if the flags
  are those of a copy. -/
  self : o = n → ∀ p m, OfFd o p → s.entry p = some m → aliasOf m = m

section

variable {s t u : Process} {o n i : ℕ} {io : Io}

/-- The flags that a call adds are not these two. -/
lemma givenFlags_and (w : Word) :
    givenFlags w &&& (PTE_W ||| PTE_LIBRARY) = w &&& (PTE_W ||| PTE_LIBRARY) := by
  have h : givenFlags w &&& (PTE_W ||| PTE_LIBRARY) =
      (w ||| (PTE_U ||| PTE_A ||| PTE_D ||| PTE_R ||| PTE_V)) &&&
        (0x3FF#32 &&& (PTE_W ||| PTE_LIBRARY)) := by
    simp only [givenFlags, pteBits, entryFlags, BitVec.and_assoc, BitVec.or_assoc]
  rw [h, BitVec.and_or_distrib_right,
    show (PTE_U ||| PTE_A ||| PTE_D ||| PTE_R ||| PTE_V) &&&
      (0x3FF#32 &&& (PTE_W ||| PTE_LIBRARY)) = 0#32
      by decide,
    show 0x3FF#32 &&& (PTE_W ||| PTE_LIBRARY) = PTE_W ||| PTE_LIBRARY by decide, BitVec.or_zero]

lemma shown_aliasOf (m : Mapping) : shown (some (aliasOf m)) = shown (some m) := by
  change some (m.page, givenFlags (m.perm &&& (PTE_W ||| PTE_LIBRARY)) &&&
    (PTE_W ||| PTE_LIBRARY)) = _
  rw [givenFlags_and, BitVec.and_assoc, BitVec.and_self]
  rfl

/-- The pages that `err:` unmaps are those of the new number. -/
lemma target_iff (hn : n < 32) (p : ℕ) : Target (index2fd (BitVec.ofNat 32 n)) p ↔ OfFd n p := by
  unfold Target OfFd
  rw [fd_legal hn, pn_fd hn]
  refine or_congr (by simp) ?_
  constructor
  · intro h
    obtain ⟨i, hi, -, rfl⟩ := h
    exact ⟨i, hi, pn_pageOf hn hi⟩
  · intro h
    obtain ⟨i, hi, rfl⟩ := h
    exact ⟨i, hi, pageOf_legal hn hi, (pn_pageOf hn hi).symm⟩

/-- All of them are allowed. -/
lemma not_blocked (hn : n < 32) : ¬ Blocked s o (index2fd (BitVec.ofNat 32 n)) := by
  intro h
  obtain hill | ⟨i, hi, -, hill⟩ := h
  · rw [fd_legal hn] at hill
    exact absurd hill nofun
  · rw [pageOf_legal hn hi] at hill
    exact absurd hill nofun

lemma not_ofFd (ho : o < 32) (hn : n < 32) (hne : o ≠ n) {p : ℕ} (hp : OfFd o p) : ¬ OfFd n p := by
  intro h
  obtain rfl | ⟨i, hi, rfl⟩ := hp
  · obtain h | ⟨j, -, h⟩ := h
    · exact fdPage_inj hne h
    · exact dataPage_ne_fdPage ho j h.symm
  · obtain h | ⟨j, hj, h⟩ := h
    · exact dataPage_ne_fdPage hn i h
    · unfold dataPage at h
      omega

lemma closes_fdPage {d p : ℕ} (h : s.Closes d p) : s.Closes d (fdPage d) := by
  unfold Process.Closes at h ⊢
  tauto

lemma wp_dup (io : Io) (ho : o < 32) (hn : n < 32) (hopen : (s.entry (fdPage o)).isSome)
    (hends : s.Ends n) :
    wp (dup io (BitVec.ofNat 32 o) (BitVec.ofNat 32 n)) s
      (fun r u => r = BitVec.ofNat 32 n ∧ ∃ t, Without (s.Closes n) s t ∧ Done o n t u)
      (fun r u => r.msb = true ∧ ∃ t, Without (s.Closes n) s t ∧ Undone o n t u)
      fun _ => False := by
  rw [dup, wp_bind, wp_fdLookup ho]
  refine ⟨fun _ => ?_, fun hnone => absurd (hnone ▸ hopen) (by simp)⟩
  rw [wp_bind, wp_attempt]
  have hrest : ∀ t, Without (s.Closes n) s t →
      wp (do
        onError (dupPages (index2fd (BitVec.ofNat 32 o)) (index2fd (BitVec.ofNat 32 n)))
          (dupUndo (index2fd (BitVec.ofNat 32 n)))
        pure (BitVec.ofNat 32 n)) t
      (fun r u => r = BitVec.ofNat 32 n ∧ ∃ t, Without (s.Closes n) s t ∧ Done o n t u)
      (fun r u => r.msb = true ∧ ∃ t, Without (s.Closes n) s t ∧ Undone o n t u)
      fun _ => False := by
    intro t ht
    rw [wp_bind, wp_onError]
    apply (wp_dupPages ho _ t).mono (fun _ u hu => ⟨rfl, t, ht, hu.done ho hn⟩) _ fun _ hp => hp
    intro r u h
    obtain ⟨hneg, hfail⟩ := h
    apply (wp_dupUndo (index2fd (BitVec.ofNat 32 n)) u).imp
    intro _ v hv
    have hv := hv.congr (target_iff hn)
    refine ⟨hneg, t, ht, fun hdata => ?_, hv.gone, fun p hp => ?_⟩
    · refine (hfail.blocked (.inr ⟨?_, ?_⟩)).resolve_left (not_blocked hn)
      · rwa [dataTable, pn_data hn]
      · rw [ht.tables, pn_fd hn]
        exact tables_fdPage ho hn hopen
    · rw [hv.kept p hp]
      exact hfail.kept p fun h => hp ((target_iff hn p).mp h)
  exact (wp_close io hn hends).mono (fun _ t ht => hrest t ht)
    (fun _ t ht => hrest t ht) fun _ hp => hp

/-- With a file of such a size, neither does `dup`. -/
lemma wp_dup_endless (io : Io) (ho : o < 32) (hn : n < 32) (hopen : (s.entry (fdPage o)).isSome)
    (hends : ¬ s.Ends n) :
    wp (dup io (BitVec.ofNat 32 o) (BitVec.ofNat 32 n)) s (fun _ _ => False) (fun _ _ => False)
      (· = Stop.outOfFuel) := by
  rw [dup, wp_bind, wp_fdLookup ho]
  refine ⟨fun _ => ?_, fun hnone => absurd (hnone ▸ hopen) (by simp)⟩
  rw [wp_bind, wp_attempt]
  exact (wp_close_endless io hn hends).mono (fun _ _ h => h.elim) (fun _ _ h => h.elim) fun _ h => h

/-! ### After closing the new number -/

section

variable (hw : Without (s.Closes n) s t) (hspares : ∀ p, OfFd o p → s.Closes n p → s.entry p = none)

include hw hspares

lemma spared {p : ℕ} (hp : OfFd o p) : t.entry p = s.entry p := by
  by_cases hc : s.Closes n p
  · rw [hw.gone p hc, hspares p hp hc]
  · exact hw.kept p hc

end

/-- All copies have been made: the new number is an alias. -/
lemma aliased_of_done (ho : o < 32) (hn : n < 32) (hfits : s.DupFits o n)
    (hw : Without (s.Closes n) s t) (hdone : Done o n t u) : Aliased o n s u := by
  have hspared : ∀ p, OfFd o p → t.entry p = s.entry p := fun p hp => spared hw hfits.spares hp
  obtain ⟨m, hm, hfd⟩ := hdone.fd
  have hold : ∀ p, OfFd o p → u.entry p = s.entry p := by
    intro p hp
    by_cases hne : o = n
    · subst hne
      have hself := hfits.self rfl
      rw [← hspared p hp]
      obtain rfl | ⟨i, hi, rfl⟩ := id hp
      · rw [hfd, hm, hself _ m hp ((hspared _ hp).symm.trans hm)]
      · cases hmi : t.entry (dataPage o + i) with
        | none =>
            rw [hdone.kept _ (dataPage_ne_fdPage ho i), hmi]
            intro j _ hj h
            rw [← h, hmi] at hj
            exact absurd hj (by simp)
        | some m' => rw [hdone.window i hi m' hmi, hself _ m' hp ((hspared _ hp).symm.trans hmi)]
    · have hnot := not_ofFd ho hn hne hp
      rw [hdone.kept p (fun h => hnot (.inl h)) fun i hi _ h =>
        hnot (.inr ⟨i, hi, h⟩), hspared p hp]
  refine ⟨?_, fun i hi => ?_, hold⟩
  · rw [hold _ (.inl rfl), ← hspared _ (.inl rfl), hfd, hm, shown_aliasOf]
  · have hp : OfFd o (dataPage o + i) := .inr ⟨i, hi, rfl⟩
    rw [hold _ hp, ← hspared _ hp]
    cases hmi : t.entry (dataPage o + i) with
    | some m' => rw [hdone.window i hi m' hmi, shown_aliasOf]
    | none =>
        rw [hdone.kept _ (dataPage_ne_fdPage hn i)]
        · have hnone : t.entry (dataPage n + i) = none := by
            by_cases hc : s.Closes n (dataPage n + i)
            · exact hw.gone _ hc
            · rw [hw.kept _ hc]
              exact (hfits.clears i hi ((hspared _ hp).symm.trans hmi)).resolve_right hc
          rw [hnone]
        · intro j _ hj h
          obtain rfl : i = j := Nat.add_left_cancel h
          rw [hmi] at hj
          exact absurd hj (by simp)

/-- Something has failed: the new number is gone. -/
lemma dropped_of_undone (ho : o < 32) (hn : n < 32) (hopen : (s.entry (fdPage o)).isSome)
    (hfits : s.DupFits o n) (hw : Without (s.Closes n) s t) (hundone : Undone o n t u) :
    Dropped o n s u := by
  have hspared : ∀ p, OfFd o p → t.entry p = s.entry p := fun p hp => spared hw hfits.spares hp
  have hne : o ≠ n := by
    rintro rfl
    have hnone := hundone.failed (window_or_table t o)
    rw [hspared _ (.inl rfl)] at hnone
    rw [hnone] at hopen
    exact absurd hopen (by simp)
  refine ⟨hundone.gone, fun p hp => ?_⟩
  rw [hundone.kept p (not_ofFd ho hn hne hp), hspared p hp]

/-- An alias has been made as it should be: so the state was fit for it. -/
lemma fits_of_aliased (ho : o < 32) (hn : n < 32) (hends : s.Ends n)
    (hw : Without (s.Closes n) s t) (hdone : Done o n t u) (halias : Aliased o n s u) :
    s.DupFits o n := by
  obtain ⟨m, hm, hfd⟩ := hdone.fd
  have hspares : ∀ p, OfFd o p → s.Closes n p → s.entry p = none := by
    intro p hp hc
    by_cases hne : o = n
    · subst hne
      exact absurd (hm.symm.trans (hw.gone _ (closes_fdPage hc))) (by simp)
    · have hnot := not_ofFd ho hn hne hp
      rw [← halias.old p hp, hdone.kept p (fun h => hnot (.inl h)) fun i hi _ h =>
        hnot (.inr ⟨i, hi, h⟩)]
      exact hw.gone p hc
  refine ⟨hends, hspares, fun i hi hnone => ?_, fun hself p m' hp hm' => ?_⟩
  · have hp : OfFd o (dataPage o + i) := .inr ⟨i, hi, rfl⟩
    have hnew := halias.window i hi
    rw [halias.old _ hp, hnone] at hnew
    rw [← spared hw hspares hp] at hnone
    rw [hdone.kept _ (dataPage_ne_fdPage hn i)] at hnew
    · by_cases hc : s.Closes n (dataPage n + i)
      · exact .inr hc
      · rw [hw.kept _ hc] at hnew
        exact .inl (Option.map_eq_none_iff.mp hnew)
    · intro j _ hj h
      obtain rfl : i = j := Nat.add_left_cancel h
      rw [hnone] at hj
      exact absurd hj (by simp)
  · subst hself
    have hold := halias.old p hp
    have ht := (spared hw hspares hp).trans hm'
    rw [hm'] at hold
    obtain rfl | ⟨i, hi, rfl⟩ := hp
    · obtain rfl := Option.some.inj (hm.symm.trans ht)
      exact Option.some.inj (hfd.symm.trans hold)
    · exact Option.some.inj ((hdone.window i hi m' ht).symm.trans hold)

lemma fits_of_dropped (ho : o < 32) (hn : n < 32) (hopen : (s.entry (fdPage o)).isSome)
    (hends : s.Ends n) (hw : Without (s.Closes n) s t) (hundone : Undone o n t u)
    (hdropped : Dropped o n s u) : s.DupFits o n := by
  have hne : o ≠ n := by
    rintro rfl
    have hgone := hundone.gone _ (.inl rfl)
    rw [hdropped.old _ (.inl rfl)] at hgone
    rw [hgone] at hopen
    exact absurd hopen (by simp)
  have hkept : ∀ p, OfFd o p → t.entry p = s.entry p := by
    intro p hp
    rw [← hdropped.old p hp, hundone.kept p (not_ofFd ho hn hne hp)]
  have hspares : ∀ p, OfFd o p → s.Closes n p → s.entry p = none := by
    intro p hp hc
    rw [← hkept p hp, hw.gone p hc]
  refine ⟨hends, hspares, fun i hi _ => .inl ?_, fun hself => absurd hself hne⟩
  -- with a page table for the new window, the call could not have failed
  have htable : t.tables (dataPage n / 1024) = false := by
    rw [← Bool.not_eq_true]
    intro htable
    have hnone := hundone.failed (.inr htable)
    rw [hkept _ (.inl rfl)] at hnone
    rw [hnone] at hopen
    exact absurd hopen (by simp)
  rw [hw.tables] at htable
  apply entry_eq_none
  rwa [dataPage_div hi]

lemma fits_of_right (ho : o < MAXFD) (hn : n < MAXFD) (hopen : (s.entry (fdPage o)).isSome)
    (hright : DupRight io o n s) : s.DupFits o n := by
  have hends : s.Ends n := by
    by_contra hends
    exact ((wp_dup_endless io ho hn hopen hends).and hright).elim (fun _ _ h => h.1)
      (fun _ _ h => h.1)
      fun _ h => h.2
  apply ((wp_dup io ho hn hopen hends).and hright).elim _ _ fun _ h => h.1.elim
  · intro r u h
    obtain ⟨⟨-, t, hw, hdone⟩, -, halias⟩ := h
    exact fits_of_aliased ho hn hends hw hdone halias
  · intro r u h
    obtain ⟨⟨-, t, hw, hundone⟩, -, hdropped⟩ := h
    exact fits_of_dropped ho hn hopen hends hw hundone hdropped

lemma right_of_fits (ho : o < MAXFD) (hn : n < MAXFD) (hopen : (s.entry (fdPage o)).isSome)
    (hfits : s.DupFits o n) : DupRight io o n s := by
  apply (wp_dup io ho hn hopen hfits.ends).mono _ _ fun _ hp => hp
  · intro r u h
    obtain ⟨rfl, t, hw, hdone⟩ := h
    exact ⟨rfl, aliased_of_done ho hn hfits hw hdone⟩
  · intro r u h
    obtain ⟨hneg, t, hw, hundone⟩ := h
    exact ⟨hneg, dropped_of_undone ho hn hopen hfits hw hundone⟩

/-- **`dup` is right if and only if** the loops of `close` end; closing the new number takes no page
of the old one, and leaves the new one no page that the old one lacks; and, for equal numbers, the
device is unknown, and the flags are those of a copy. -/
theorem dup_iff (io : Io) (s : Process) (o n : ℕ) (ho : o < MAXFD) (hn : n < MAXFD)
    (hopen : (s.entry (fdPage o)).isSome) : DupRight io o n s ↔ s.DupFits o n :=
  ⟨fits_of_right ho hn hopen, right_of_fits ho hn hopen⟩

/-! ### A process with the console open -/

/-- Number 0 is the console, and there is memory. -/
def consoleOpen : Process :=
  ((Process.empty fun n => some (100 + n)).setEntry (fdPage 0)
    (some ⟨10, givenFlags (PTE_W ||| PTE_LIBRARY)⟩)).setWord 10 0 99#32

def quietIo : Io :=
  ⟨⟨0#32, fun _ _ _ _ => pure 0#32, fun _ _ _ _ => pure 0#32, fun _ _ => pure 0#32⟩,
    ⟨0#32, fun _ _ _ _ => pure 0#32, fun _ _ _ _ => pure 0#32, fun _ _ => pure 0#32⟩,
    ⟨0#32, fun _ _ _ _ => pure 0#32, fun _ _ _ _ => pure 0#32, fun _ _ => pure 0#32⟩⟩

lemma consoleOpen_entry (p : ℕ) : consoleOpen.entry p =
    if p = fdPage 0 then some ⟨10, givenFlags (PTE_W ||| PTE_LIBRARY)⟩ else none := by
  rw [consoleOpen, Process.setWord_entry, Process.entry_setEntry, Process.empty_entry]

lemma consoleOpen_devId : consoleOpen.devId 0 = some 99#32 := by
  rw [Process.devId, consoleOpen_entry, if_pos rfl]
  rfl

/-- `dup(0, 1)` makes an alias. -/
theorem dup_iff_console : DupRight quietIo 0 1 consoleOpen := by
  have hnone : consoleOpen.devId 1 = none := by
    rw [Process.devId, consoleOpen_entry, if_neg (fdPage_inj (by decide))]
    rfl
  have hcloses : ∀ p, ¬ consoleOpen.Closes 1 p := by
    intro p
    simp [Process.Closes, hnone]
  refine (dup_iff quietIo consoleOpen 0 1 (by decide) (by decide)
    (by rw [consoleOpen_entry]; rfl)).mpr
    ⟨fun h => absurd (hnone.symm.trans h) (by simp), fun p _ hc => absurd hc (hcloses p),
      fun i _ _ => ?_, fun h => absurd h (by decide)⟩
  left
  rw [consoleOpen_entry, if_neg (dataPage_ne_fdPage (by decide) i)]

/-- `dup(0, 0)` closes number 0, and fails. -/
theorem not_dupRight_console :
    (consoleOpen.entry (fdPage 0)).isSome ∧ ¬ DupRight quietIo 0 0 consoleOpen := by
  have hopen : (consoleOpen.entry (fdPage 0)).isSome := by
    rw [consoleOpen_entry]
    rfl
  refine ⟨hopen, fun h => ?_⟩
  have hnone := (fits_of_right (by decide) (by decide) hopen h).spares (fdPage 0) (.inl rfl)
    (.inr (.inl ⟨consoleOpen_devId, rfl⟩))
  rw [hnone] at hopen
  exact absurd hopen (by simp)

end

end MosRv.Fd
