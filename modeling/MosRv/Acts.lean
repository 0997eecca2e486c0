import MosRv.BootInv
import MosRv.Sched

/-!
# What a trap does to the environments

One statement says what a system call (`Syscall.Acts`), and what a trap (`Trapframe.Acts`), can do
to everything but the pages: the array `envs`, the two lists, the ASIDs, `curenv`, and the trap
frame. Nothing is assumed of the state: the results about environments that are about every run use
these statements, and never look into a handler again.

What happens to the pages, and to the devices, is left open here (`Kernel.Like`).
-/

namespace MosRv

open Prog

/-! ## Functions that do not touch the environments -/

/-- The pages and the devices may have changed, and nothing else. -/
def Kernel.Like (k k' : Kernel) : Prop := ∃ m dev, k' = { k with pm := m, dev := dev }

lemma Kernel.Like.refl {k : Kernel} : k.Like k := ⟨_, _, rfl⟩

lemma Kernel.Like.trans {k k' k'' : Kernel} (h : k.Like k') (h' : k'.Like k'') : k.Like k'' := by
  obtain ⟨m, dev, rfl⟩ := h
  obtain ⟨m', dev', rfl⟩ := h'
  exact ⟨m', dev', rfl⟩

/-- The exit is an error code. -/
def Exit.IsCode (x : Exit) : Prop := ∃ e, x = .code e

/-- The program leaves the environments alone, and exits only with an exit in `C`. -/
def Quiet (C : Exit → Prop) {α : Type} (x : KernelM α) : Prop :=
  ∀ k, wp x k (fun _ k' => k.Like k') (fun e k' => C e ∧ k.Like k') fun _ => True

namespace Quiet

variable {C : Exit → Prop} {α β : Type}

lemma pure (a : α) : Quiet C (Pure.pure a : KernelM α) := fun _ => .refl

lemma exit {x : Exit} (hx : C x) : Quiet C (Prog.exit x : KernelM α) := fun _ => ⟨hx, .refl⟩

lemma panic (p : Panic) : Quiet C (Prog.panic p : KernelM α) := fun _ => trivial

lemma get : Quiet C (Prog.get : KernelM Kernel) := fun _ => .refl

lemma bind {x : KernelM β} {f : β → KernelM α} (hx : Quiet C x) (hf : ∀ b, Quiet C (f b)) :
    Quiet C (x >>= f) := by
  intro k
  rw [wp_bind]
  refine (hx k).mono (fun b k₁ h₁ => ?_) (fun _ _ he => he) fun _ hp => hp
  exact (hf b k₁).mono (fun _ _ h₂ => h₁.trans h₂) (fun _ _ he => ⟨he.1, h₁.trans he.2⟩)
    fun _ hp => hp

lemma ite {c : Prop} [Decidable c] {x y : KernelM α} (hx : Quiet C x) (hy : Quiet C y) :
    Quiet C (if c then x else y) := by
  split_ifs
  · exact hx
  · exact hy

lemma forRange {body : ℕ → KernelM Unit} (hb : ∀ i, Quiet C (body i)) (lo n : ℕ) :
    Quiet C (Prog.forRange body lo n) := by
  intro k
  refine wp_forRange (fun _ k' => k.Like k') n lo .refl fun i k₁ _ _ h₁ => ?_
  exact (hb i k₁).mono (fun _ _ h₂ => h₁.trans h₂) (fun _ _ he => ⟨he.1, h₁.trans he.2⟩)
    fun _ hp => hp

lemma liftPm {x : PmapM α} (hx : Exits C x) : Quiet C (liftPm x) := by
  intro k
  rw [wp_liftPm]
  exact (hx.wp_true k.pm).mono (fun _ m _ => ⟨m, _, rfl⟩)
    (fun _ m he => ⟨he, m, _, rfl⟩) fun _ hp => hp

lemma getCurenv : Quiet C getCurenv := by
  intro k
  rw [wp_getCurenv]
  exact ⟨fun _ _ => .refl, fun _ => trivial⟩

lemma getCurPgdir : Quiet C getCurPgdir := by
  intro k
  rw [wp_getCurPgdir]
  exact ⟨fun _ _ => .refl, fun _ => trivial⟩

/-- What a quiet program does, where nothing else is asked of it. -/
lemma wp_mono {x : KernelM α} {k : Kernel} {Q : α → Kernel → Prop} {E : Exit → Kernel → Prop}
    (hx : Quiet C x) (hQ : ∀ a k', k.Like k' → Q a k') (hE : ∀ e k', C e → k.Like k' → E e k') :
    wp x k Q E fun _ => True :=
  (hx k).mono hQ (fun e k' he => hE e k' he.1 he.2) fun _ hp => hp

lemma wp_mono_code {x : KernelM α} {k : Kernel} {Q : α → Kernel → Prop} {E : Exit → Kernel → Prop}
    (hx : Quiet Exit.IsCode x) (hQ : ∀ a k', k.Like k' → Q a k')
    (hE : ∀ e k', k.Like k' → E (.code e) k') : wp x k Q E fun _ => True := by
  refine hx.wp_mono hQ ?_
  rintro - k' ⟨e, rfl⟩ h
  exact hE e k' h

/-- The same where the program does not exit. -/
lemma wp_mono_none {x : KernelM α} {k : Kernel} {Q : α → Kernel → Prop}
    {E : Exit → Kernel → Prop} (hx : Quiet (fun _ => False) x) (hQ : ∀ a k', k.Like k' → Q a k') :
    wp x k Q E fun _ => True :=
  hx.wp_mono hQ fun _ _ hf => hf.elim

/-- … with the run itself. -/
lemma wp_mono_run {x : KernelM α} {k : Kernel} {Q : α → Kernel → Prop}
    {E : Exit → Kernel → Prop} (hx : Quiet (fun _ => False) x)
    (hQ : ∀ a k', x k = .ok a k' → k.Like k' → Q a k') : wp x k Q E fun _ => True :=
  wp_iff.mpr ⟨fun a k' hrun => hQ a k' hrun ((hx k).of_ok hrun),
    fun _ _ hrun => ((hx k).of_exit hrun).1.elim, fun _ _ => trivial⟩

end Quiet

/-! ## Pages -/

section

variable {C : Exit → Prop}

lemma exits_pa2page (pa : Word) : Exits C (pa2page pa) :=
  .bind .get fun _ => .ite (.panic _) (.pure _)

lemma exits_pageDecref (pp : ℕ) : Exits C (pageDecref pp) := by
  refine ⟨fun m => ?_⟩
  rw [wp_pageDecref]
  exact ⟨fun _ => ⟨⟩, fun _ => ⟨⟩⟩

lemma exits_pageLookup (d : ℕ) (va : Word) : Exits C (pageLookup d va) := by
  refine ⟨fun m => ?_⟩
  rw [wp_pageLookup]
  cases m.walk d va with
  | none => exact ⟨⟩
  | some tj => exact ⟨fun _ => ⟨⟩, fun _ => ⟨fun _ => ⟨⟩, fun _ => ⟨⟩⟩⟩

lemma exits_pageRemove (d : ℕ) (asid va : Word) : Exits C (pageRemove d asid va) := by
  refine .bind (exits_pageLookup d va) fun found => ?_
  cases found with
  | none => exact .pure _
  | some r => exact .bind (exits_pageDecref _) fun _ => .modify _

lemma exits_pageAlloc : Exits Exit.IsCode pageAlloc := by
  refine .bind .get fun m => ?_
  cases m.pageFreeList with
  | nil => exact .exit ⟨_, rfl⟩
  | cons pp rest => exact .bind (.set _) fun _ => .pure _

lemma exits_paddr2pte (pa : Word) : Exits C (paddr2pte pa) := .ite (.panic _) (.pure _)

lemma exits_pgdirWalk (d : ℕ) (va : Word) (create : Bool) :
    Exits Exit.IsCode (pgdirWalk d va create) := by
  refine .bind .get fun m => .ite (.pure _) (.ite ?_ (.pure _))
  refine .bind exits_pageAlloc fun pp => .bind (.modify _) fun _ => ?_
  exact .bind (exits_paddr2pte _) fun w => .bind (.modify _) fun _ => .bind .get fun m => .pure _

lemma exits_pageInsertNew (d pp : ℕ) (va perm : Word) :
    Exits Exit.IsCode (pageInsertNew d pp va perm) := by
  refine .bind (exits_pgdirWalk d va true) fun pte => ?_
  cases pte with
  | none => exact .pure _
  | some tj => exact .bind (.modify _) fun _ => .bind (exits_paddr2pte _) fun w => .modify _

lemma exits_pageInsert (d : ℕ) (asid : Word) (pp : ℕ) (va perm : Word) :
    Exits Exit.IsCode (pageInsert d asid pp va perm) := by
  refine .ite (.panic _) (.bind (exits_pgdirWalk d va false) fun pte => ?_)
  cases pte with
  | none => exact exits_pageInsertNew _ _ _ _
  | some tj =>
      refine .bind .get fun m => .ite (.bind (exits_pa2page _) fun q => ?_)
        (exits_pageInsertNew _ _ _ _)
      exact .ite (.bind (exits_pageRemove _ _ _) fun _ => exits_pageInsertNew _ _ _ _) (.modify _)

/-- The entry for `va` is the directory's own, which `page_insert` of `pp` clears before it looks
for a page table again.  No directory of a live env is like this. -/
structure Pmap.SelfMapped (m : Pmap) (d pp : ℕ) (va : Word) : Prop where
  tableAt : m.TableAt d va d
  index : PTX va = PDX va
  ne : d ≠ pp
  lt_npage : d < m.npage
  ref : m.ppRef d ≠ 0#16 ∧ m.ppRef d ≠ 1#16

/-- `page_insert` fails: there is no page table, and no page for one. -/
def Pmap.InsertFails (m : Pmap) (d pp : ℕ) (va : Word) : Prop :=
  va < ULIM ∧ m.pageFreeList = [] ∧ (¬ HasFlag (m.pde d va) PTE_V ∨ m.SelfMapped d pp va)

lemma wp_pageInsertNew_fails {m : Pmap} {d pp : ℕ} {va perm : Word} :
    wp (pageInsertNew d pp va perm) m (fun _ _ => m.pageFreeList ≠ [] ∨ HasFlag (m.pde d va) PTE_V)
      (fun x _ => x = .code .noMem ∧ m.pageFreeList = [] ∧ ¬ HasFlag (m.pde d va) PTE_V)
      fun _ => m.pageFreeList ≠ [] ∨ HasFlag (m.pde d va) PTE_V := by
  rw [pageInsertNew, wp_bind]
  by_cases hv : HasFlag (m.pde d va) PTE_V
  · rw [wp_pgdirWalk_true hv, Pmap.walk_of_valid hv]
    simp only [wp_bind, wp_modify, paddr2pte, wp_ite, wp_panic, wp_pure]
    exact ⟨fun _ => .inr hv, fun _ => .inr hv⟩
  · cases hl : m.pageFreeList with
    | nil =>
        rw [wp_pgdirWalk_noMem hv hl]
        exact ⟨rfl, rfl, hv⟩
    | cons t rest =>
        rw [pgdirWalk, wp_bind, wp_get, if_neg hv, if_pos rfl, wp_bind, wp_pageAlloc_cons hl]
        simp only [wp_bind, wp_modify, paddr2pte, wp_ite, wp_panic, wp_pure, wp_get]
        simp

lemma Pmap.SelfMapped.entry {m : Pmap} {d pp : ℕ} {va : Word} (h : m.SelfMapped d pp va) :
    m.mem (pteFrame (m.pde d va)) (PTX va) = m.pde d va ∧ pteFrame (m.pde d va) = d := by
  rw [h.tableAt.2, h.index]
  exact ⟨rfl, rfl⟩

/-- After the removal of another page, no page table and no page are left just where the directory
maps itself. -/
lemma selfMapped_iff {m : Pmap} {d pp t q : ℕ} {va : Word} (ht : m.TableAt d va t)
    (hq : pteFrame (m.mem t (PTX va)) = q) (hlt : q < m.npage) (hne : q ≠ pp)
    (hr : m.ppRef q ≠ 0#16) :
    (((m.release q).write t (PTX va) 0#32).pageFreeList = [] ∧
        ¬ HasFlag (((m.release q).write t (PTX va) 0#32).pde d va) PTE_V) ↔
      m.pageFreeList = [] ∧ m.SelfMapped d pp va := by
  have hpde : ((m.release q).write t (PTX va) 0#32).pde d va =
      if d = t ∧ PDX va = PTX va then 0#32 else m.pde d va := by
    rw [Pmap.pde, Pmap.write_mem]
    rfl
  have hpred : m.ppRef q - 1#16 = 0#16 ↔ m.ppRef q = 1#16 :=
    ⟨fun h => by bv_omega, fun h => by rw [h]; rfl⟩
  rw [hpde, Pmap.write_pageFreeList, Pmap.release_pageFreeList]
  simp only [hpred]
  constructor
  · rintro ⟨hnil, hz⟩
    split_ifs at hnil with hone
    have hsame : d = t ∧ PDX va = PTX va := by
      by_contra hno
      rw [if_neg hno] at hz
      exact hz ht.1
    obtain ⟨rfl, hidx⟩ := hsame
    have hqd : d = q := by
      rw [← hq, ← hidx]
      exact ht.2.symm
    subst hqd
    exact ⟨hnil, ht, hidx.symm, hne, hlt, hr, hone⟩
  · rintro ⟨hnil, hs⟩
    have htd : t = d := ht.2.symm.trans hs.tableAt.2
    obtain rfl : q = d := by
      rw [← hq, htd, hs.index]
      exact hs.tableAt.2
    rw [if_neg hs.ref.2, if_pos ⟨htd.symm, hs.index.symm⟩]
    exact ⟨hnil, not_hasFlag_zero _⟩

/-- **When `page_insert` fails**, in any state. -/
lemma wp_pageInsert_fails {m : Pmap} {d pp : ℕ} {asid va perm : Word} :
    wp (pageInsert d asid pp va perm) m (fun _ _ => ¬ m.InsertFails d pp va)
      (fun x _ => x = .code .noMem ∧ m.InsertFails d pp va) fun _ => ¬ m.InsertFails d pp va := by
  rw [pageInsert, wp_ite, wp_panic]
  refine ⟨fun hva hf => absurd hf.1 (BitVec.not_lt.mpr hva), fun hva => ?_⟩
  rw [BitVec.not_le] at hva
  rw [wp_bind, wp_pgdirWalk_false]
  by_cases hv : HasFlag (m.pde d va) PTE_V
  · have hself : (m.SelfMapped d pp va → False) → ¬ m.InsertFails d pp va :=
      fun hno hf => hf.2.2.elim (fun h => h hv) hno
    rw [Pmap.walk_of_valid hv]
    simp only [wp_bind, wp_get, wp_ite, wp_pa2page, wp_modify]
    refine ⟨fun hpv => ⟨fun hge => hself fun h => ?_, fun hlt => ⟨fun hne => ?_, fun heq => ?_⟩⟩,
      fun hpv => ?_⟩
    · change m.npage ≤ pteFrame _ at hge
      rw [h.entry.1, h.entry.2] at hge
      exact absurd h.lt_npage (not_lt.mpr hge)
    · rw [wp_pageRemove, Pmap.walk_of_valid hv]
      refine ⟨fun h => absurd hpv h, fun _ =>
        ⟨fun h => absurd h (not_le.mpr hlt), fun _ => ⟨?_, ?_⟩⟩⟩
      · refine fun hr => hself fun h => ?_
        rw [h.entry.1, h.entry.2] at hr
        exact h.ref.1 hr
      · intro hr
        -- the removal may have written into the directory, and it may have freed a page
        have hiff := selfMapped_iff ⟨hv, rfl⟩ rfl hlt hne hr
        have hno : ∀ {m₁ : Pmap}, (m₁.pageFreeList ≠ [] ∨ HasFlag (m₁.pde d va) PTE_V) →
            (m₁.pageFreeList = [] ∧ ¬ HasFlag (m₁.pde d va) PTE_V ↔
              m.pageFreeList = [] ∧ m.SelfMapped d pp va) → ¬ m.InsertFails d pp va := by
          intro m₁ h hiff hf
          obtain ⟨hnil, hz⟩ := hiff.mpr ⟨hf.2.1, hf.2.2.resolve_left (not_not.mpr hv)⟩
          exact h.elim (fun h => h hnil) hz
        refine wp_pageInsertNew_fails.mono (fun _ _ h => hno h hiff) (fun _ _ h => ?_)
          fun _ h => hno h hiff
        obtain ⟨hnil, hs⟩ := hiff.mp h.2
        exact ⟨h.1, hva, hnil, .inr hs⟩
    · refine hself fun h => h.ne ?_
      have hq := not_not.mp heq
      change pteFrame _ = pp at hq
      rwa [h.entry.1, h.entry.2] at hq
    · have hno := hself fun h => hpv (by rw [h.entry.1]; exact hv)
      refine wp_pageInsertNew_fails.mono (fun _ _ _ => hno) ?_ fun _ _ => hno
      exact fun _ _ h => absurd hv h.2.2
  · rw [Pmap.walk_of_not_valid hv]
    refine wp_pageInsertNew_fails.mono ?_ ?_ ?_
    · exact fun _ _ h hf => h.elim (fun h => h hf.2.1) hv
    · exact fun _ _ h => ⟨h.1, hva, h.2.1, .inl hv⟩
    · exact fun _ h hf => h.elim (fun h => h hf.2.1) hv

lemma exits_panicOn {α : Type} {x : PmapM α} (hx : Exits Exit.IsCode x) : Exits C (panicOn x) := by
  refine ⟨fun m => ?_⟩
  rw [wp_panicOn]
  refine (hx.wp_true m).mono (fun _ _ ht => ht) ?_ fun _ _ => trivial
  rintro - m' ⟨e, rfl⟩
  trivial

lemma exits_passiveAlloc (va : Word) (d : ℕ) (asid : Word) : Exits C (passiveAlloc va d asid) := by
  refine .ite (.panic _) (.ite (.panic _) (.ite (.panic _) (.ite (.panic _) (.ite (.panic _) ?_))))
  exact .bind (exits_panicOn exits_pageAlloc) fun p => exits_panicOn (exits_pageInsert _ _ _ _ _)

lemma exits_envFreeTable (d : ℕ) (asid : Word) (pt i : ℕ) : Exits C (envFreeTable d asid pt i) :=
  .forRange (fun _ => .bind .get fun _ => .ite (exits_pageRemove _ _ _) (.pure _)) _ _

lemma exits_envFreePde (d : ℕ) (asid : Word) (i : ℕ) : Exits C (envFreePde d asid i) := by
  refine .bind .get fun m => .ite (.ite (.panic _) ?_) (.pure _)
  exact .bind (exits_envFreeTable _ _ _ _) fun _ => .bind (.modify _) fun _ =>
    .bind (exits_pa2page _) fun p => exits_pageDecref p

end

/-! ## User memory -/

section

variable {C : Exit → Prop}

lemma quiet_doTlbRefill (va asid : Word) : Quiet C (doTlbRefill va asid) := by
  refine Quiet.getCurPgdir.bind fun d => .bind (.liftPm (exits_pageLookup d va)) fun pp => ?_
  cases pp with
  | none => exact .liftPm (exits_passiveAlloc va d asid)
  | some _ => exact .pure _

lemma quiet_loadByte (va : Word) : Quiet C (loadByte va) := by
  refine Quiet.getCurPgdir.bind fun d => Quiet.get.bind fun k => ?_
  cases k.pm.userByte d va with
  | some b => exact .pure _
  | none =>
      refine .ite (.panic _) ((quiet_doTlbRefill va _).bind fun _ => Quiet.get.bind fun k => ?_)
      cases k.pm.userByte d va with
      | some b => exact .pure _
      | none => exact .panic _

lemma quiet_storeByte (va : Word) (b : BitVec 8) : Quiet C (storeByte va b) := by
  refine Quiet.getCurPgdir.bind fun d => Quiet.bind ?_ fun _ => Quiet.get.bind fun k => ?_
  · exact Quiet.get.bind fun k => .ite (quiet_doTlbRefill va _) (.pure _)
  · cases k.pm.entryAt d va with
    | some w => exact .ite (.liftPm (.modify _)) (.panic _)
    | none => exact .panic _

lemma quiet_loadWord (va : Word) : Quiet C (loadWord va) :=
  (quiet_loadByte va).bind fun _ => (quiet_loadByte _).bind fun _ => (quiet_loadByte _).bind
    fun _ => (quiet_loadByte _).bind fun _ => .pure _

lemma quiet_loadWords (va : Word) : ∀ (n i : ℕ) (w : ℕ → Word), Quiet C (loadWords va n i w)
  | 0, _, _ => .pure _
  | n + 1, i, _ => (quiet_loadWord _).bind fun _ => quiet_loadWords va n (i + 1) _

lemma quiet_loadTrapframe (va : Word) : Quiet C (loadTrapframe va) :=
  (quiet_loadWords va _ _ _).bind fun _ => .pure _

lemma quiet_storeTrapframe (va : Word) (tf : Trapframe) : Quiet C (storeTrapframe va tf) :=
  .forRange (fun _ => quiet_storeByte _ _) _ _

lemma quiet_normalPageFault : Quiet C normalPageFault :=
  Quiet.get.bind fun _ => quiet_doTlbRefill _ _

lemma quiet_printcharc (c : Word) : Quiet C (printcharc c) := fun k => ⟨k.pm, _, rfl⟩

lemma quiet_voidResult : Quiet C voidResult := Quiet.get.bind fun _ => .pure _

end

/-! ## Ids, creation and destruction -/

/-- `envid2env` finds the environment. -/
inductive Kernel.Resolves (k : Kernel) (envid : Word) (checkperm : Bool) : ℕ → Prop
  | self {c : ℕ} (h0 : envid = 0#32) (hcur : k.curenv = some c) : k.Resolves envid checkperm c
  | other (h0 : envid ≠ 0#32) (hlive : (k.envs (ENVX envid)).envStatus ≠ .free)
      (hid : (k.envs (ENVX envid)).envId = envid)
      (hperm : checkperm = true → ∃ c, k.curenv = some c ∧
        ((k.envs (ENVX envid)).envId = (k.envs c).envId ∨
          (k.envs (ENVX envid)).envParentId = (k.envs c).envId)) :
      k.Resolves envid checkperm (ENVX envid)

lemma wp_envid2env_resolves (k : Kernel) (envid : Word) (checkperm : Bool) :
    wp (envid2env envid checkperm) k (fun e k' => k' = k ∧ k.Resolves envid checkperm e)
      (fun x k' => x = .code .badEnv ∧ k' = k) fun _ => True := by
  rw [envid2env, wp_bind, wp_get]
  by_cases h0 : envid = 0#32
  · rw [if_pos h0, wp_getCurenv]
    exact ⟨fun c hc => ⟨rfl, .self h0 hc⟩, fun _ => trivial⟩
  · rw [if_neg h0, wp_ite, wp_exit]
    refine ⟨fun _ => ⟨rfl, rfl⟩, fun h => ?_⟩
    rw [not_or, not_not] at h
    obtain ⟨hlive, hid⟩ := h
    rw [wp_ite, wp_bind, wp_getCurenv, wp_pure]
    refine ⟨fun _ => ⟨fun c hc => ?_, fun _ => trivial⟩, fun hno => ?_⟩
    · rw [wp_ite, wp_exit, wp_pure]
      refine ⟨fun _ => ⟨rfl, rfl⟩, fun hperm => ⟨rfl, .other h0 hlive hid fun _ => ⟨c, hc, ?_⟩⟩⟩
      by_contra hno
      rw [not_or] at hno
      exact hperm hno
    · exact ⟨rfl, .other h0 hlive hid fun hc => absurd hc hno⟩

/-- A handler that starts with `envid2env`. -/
lemma wp_envid2env_bind {α : Type} {k : Kernel} {envid : Word} {checkperm : Bool}
    {f : ℕ → KernelM α} {Q : α → Kernel → Prop} {E : Exit → Kernel → Prop}
    (hE : E (.code .badEnv) k)
    (hf : ∀ e, k.Resolves envid checkperm e → wp (f e) k Q E fun _ => True) :
    wp (envid2env envid checkperm >>= f) k Q E fun _ => True := by
  rw [wp_bind]
  refine (wp_envid2env_resolves k envid checkperm).mono ?_ ?_ fun _ hp => hp
  · rintro e k' ⟨rfl, he⟩
    exact hf e he
  · rintro x k' ⟨rfl, rfl⟩
    exact hE

/-- `envid2env` comes back with what the id stands for. -/
lemma Kernel.Resolves.wp {α : Type} {k : Kernel} {e : ℕ} {envid : Word} {checkperm : Bool}
    {f : ℕ → KernelM α}
    {Q : α → Kernel → Prop} {E : Exit → Kernel → Prop} {P : Panic → Prop}
    (h : k.Resolves envid checkperm e) :
    Prog.wp (envid2env envid checkperm >>= f) k Q E P ↔ Prog.wp (f e) k Q E P := by
  rw [wp_bind, envid2env, wp_bind, wp_get]
  cases h with
  | self h0 hcur =>
      rw [if_pos h0, wp_getCurenv]
      simp [hcur]
  | other h0 hlive hid hperm =>
      rw [if_neg h0, if_neg (not_or.mpr ⟨hlive, not_not.mpr hid⟩)]
      cases checkperm with
      | false => rfl
      | true =>
          obtain ⟨c, hc, hor⟩ := hperm rfl
          rw [if_pos rfl, wp_bind, wp_getCurenv]
          simp only [hc, Option.some.injEq, forall_eq', reduceCtorEq, false_imp_iff, and_true]
          rw [if_neg (by tauto)]
          rfl

/-- The ASID bitmap after `asid_free(i)`. -/
def clearAsid (bitmap : ℕ → Word) (i : Word) : ℕ → Word :=
  Function.update bitmap (i >>> 5).toNat
    (bitmap (i >>> 5).toNat &&& ~~~(1#32 <<< (i &&& 31#32).toNat))

/-- The state after `env_free`. -/
def Kernel.freed (k : Kernel) (e : ℕ) (m : Pmap) (q : TailQueue.Queue ℕ) : Kernel :=
  { k with
    pm := m
    envs := Function.update k.envs e { k.envs e with envStatus := .free }
    envFreeList := e :: k.envFreeList
    envSchedList := q
    asidBitmap := clearAsid k.asidBitmap (k.envs e).envAsid }

/-- **`env_free`**, as far as the environments are concerned. -/
lemma wp_envFree_acts (k : Kernel) (e : ℕ) :
    wp (envFree e) k
      (fun _ k' => ∃ m q, (TailQueue.Op.remove e).apply k.envSchedList = some q ∧
        k' = k.freed e m q) (fun _ _ => False) fun _ => True := by
  have hpages : Exits (fun _ => False) (do
      Prog.forRange (envFreePde (k.envs e).envPgdir (k.envs e).envAsid) 0 (PDX UTOP)
      let pa ← paddr (page2pa (k.envs e).envPgdir)
      let p ← pa2page pa
      pageDecref p : PmapM Unit) := by
    refine .bind (.forRange (fun i => exits_envFreePde _ _ i) _ _) fun _ => ?_
    refine .bind (.ite (.panic _) (.pure _)) fun pa => ?_
    exact .bind (exits_pa2page _) fun p => exits_pageDecref p
  rw [envFree, wp_bind, wp_get, wp_bind, wp_liftPm]
  refine (hpages.wp_true k.pm).mono ?_ (fun _ _ hf => hf) fun _ hp => hp
  intro _ m _
  simp only [wp_bind, asidFree, wp_modify, wp_modifyEnv]
  exact wp_onSchedList trivial trivial fun q hq => ⟨m, q, hq, rfl⟩

/-- The state after `sys_exofork` has made `e`. -/
def Kernel.forked (k : Kernel) (c e : ℕ) (rest : List ℕ) (pp : ℕ) (prest : List ℕ) (i : ℕ) :
    Kernel :=
  let k' := k.allocated e rest pp prest (k.envs c).envId i
  { k' with
    envs := Function.update k'.envs e { k'.envs e with
      envTf := k.ktf.setReg 10 0#32, envStatus := .notRunnable, envPri := (k'.envs c).envPri } }

/-! ## System calls -/

/-- The state with another status of an environment, and another list. -/
def Kernel.withStatus (k : Kernel) (e : ℕ) (status : EnvStatus) (q : TailQueue.Queue ℕ) : Kernel :=
  { k with
    envs := Function.update k.envs e { k.envs e with envStatus := status }
    envSchedList := q }

/-- The state in which `sys_ipc_recv` calls `schedule`. -/
def Kernel.receiving (k : Kernel) (c : ℕ) (dstva : Word) (q : TailQueue.Queue ℕ) : Kernel :=
  { k with
    envs := Function.update k.envs c { k.envs c with
      envIpcRecving := 1#32, envIpcDstva := dstva, envStatus := .notRunnable }
    envSchedList := q
    ktf := k.ktf.setReg 10 0#32 }

/-- A send to `e` of the page at `srcva` of `c` fails for the page's sake: there is none, or it
cannot be mapped. -/
def Kernel.SendFails (k : Kernel) (c e : ℕ) (srcva : Word) : Prop :=
  match k.pm.entryAt (k.envs c).envPgdir srcva with
  | none => True
  | some w => pteFrame w < k.pm.npage ∧
      k.pm.InsertFails (k.envs e).envPgdir (pteFrame w) (k.envs e).envIpcDstva

/-- The calls that are only about pages and devices. -/
def Syscall.Plain : Syscall → Prop
  | .putchar _ | .printCons _ _ | .getenvid | .memAlloc _ _ _ | .memMap _ _ _ _ _ | .memUnmap _ _
  | .cgetc | .writeDev _ _ | .readDev _ => True
  | _ => False

/-- The call is `sys_ipc_recv`, at an address it takes. -/
def Syscall.Waits : Syscall → Prop
  | .ipcRecv dstva => dstva = 0#32 ∨ isIllegalVa dstva = false
  | _ => False

/-- A use of the list that goes through. -/
lemma wp_onSchedList_of {k : Kernel} {op : TailQueue.Op ℕ} {Q : Unit → Kernel → Prop}
    {E : Exit → Kernel → Prop}
    (hQ : ∀ q, (k.audit = true → op.proper (NENV + 1) k.envSchedList = true) →
      op.apply k.envSchedList = some q → Q () { k with envSchedList := q }) :
    wp (onSchedList op) k Q E fun _ => True := by
  rw [onSchedList, wp_bind, wp_get, wp_ite, wp_panic]
  refine ⟨fun _ => trivial, fun haudit => ?_⟩
  cases hq : op.apply k.envSchedList with
  | none => exact trivial
  | some q =>
      refine hQ q (fun ha => ?_) hq
      by_contra hno
      exact haudit ⟨ha, Bool.eq_false_iff.mpr hno⟩

/-- **What a system call does**: how it ends, and the state it leaves. -/
inductive Syscall.Acts (k : Kernel) : Syscall → Except Exit Word → Kernel → Prop
  | plain {call : Syscall} {r : Word} {k' : Kernel} (hplain : call.Plain) (h : k.Like k') :
      Acts k call (.ok r) k'
  /-- The call fails before it has changed more than pages. -/
  | failed {call : Syscall} {err : Err} {k' : Kernel} (hno : ¬ call.Waits) (h : k.Like k') :
      Acts k call (.error (.code err)) k'
  | yield {k' : Kernel} (h : k.Scheduled true k') : Acts k .yield (.error .popTf) k'
  | destroy {envid : Word} {e : ℕ} {m : Pmap} {q : TailQueue.Queue ℕ}
      (he : k.Resolves envid true e) (hcur : k.curenv ≠ some e)
      (hq : (TailQueue.Op.remove e).apply k.envSchedList = some q) :
      Acts k (.envDestroy envid) (.ok 0#32) (k.freed e m q)
  | destroySelf {envid : Word} {e : ℕ} {m : Pmap} {q : TailQueue.Queue ℕ} {k' : Kernel}
      (he : k.Resolves envid true e) (hcur : k.curenv = some e)
      (hq : (TailQueue.Op.remove e).apply k.envSchedList = some q)
      (h : { k.freed e m q with curenv := none }.Scheduled true k') :
      Acts k (.envDestroy envid) (.error .popTf) k'
  | setTlbModEntry {envid func : Word} {e : ℕ} (he : k.Resolves envid true e) :
      Acts k (.setTlbModEntry envid func) (.ok 0#32)
        { k with envs := Function.update k.envs e { k.envs e with envUserTlbModEntry := func } }
  | notForked {c e pp : ℕ} {rest prest : List ℕ} (hcur : k.curenv = some c)
      (hfree : k.envFreeList = e :: rest) (hpage : k.pm.pageFreeList = pp :: prest)
      (hasid : ((List.range NASID).find? fun i => !asidUsed k.asidBitmap i) = none) :
      Acts k .exofork (.error (.code .noFreeEnv)) (k.prepared e pp prest (k.envs c).envId)
  | forked {c e pp i : ℕ} {rest prest : List ℕ} (hcur : k.curenv = some c)
      (hfree : k.envFreeList = e :: rest) (hpage : k.pm.pageFreeList = pp :: prest)
      (hasid : ((List.range NASID).find? fun i => !asidUsed k.asidBitmap i) = some i) :
      Acts k .exofork (.ok (k.nextId e)) (k.forked c e rest pp prest i)
  | wake {envid : Word} {e : ℕ} {q : TailQueue.Queue ℕ} (he : k.Resolves envid true e)
      (hstatus : (k.envs e).envStatus ≠ .runnable)
      (hq : (TailQueue.Op.insertTail e).apply k.envSchedList = some q) :
      Acts k (.setEnvStatus envid EnvStatus.runnable.toWord) (.ok 0#32) (k.withStatus e .runnable q)
  | block {envid : Word} {e : ℕ} {q : TailQueue.Queue ℕ} (he : k.Resolves envid true e)
      (hstatus : (k.envs e).envStatus ≠ .notRunnable)
      (hq : (TailQueue.Op.remove e).apply k.envSchedList = some q) :
      Acts k (.setEnvStatus envid EnvStatus.notRunnable.toWord) (.ok 0#32)
        (k.withStatus e .notRunnable q)
  /-- The environment has that status already. -/
  | sameStatus {envid status : Word} : Acts k (.setEnvStatus envid status) (.ok 0#32) k
  | setTrapframeSelf {envid va : Word} {e : ℕ} {k₁ : Kernel} {frame : Trapframe}
      (he : k.Resolves envid true e) (hcur : k.curenv = some e)
      (hload : loadTrapframe va k = .ok frame k₁) (h : k.Like k₁) :
      Acts k (.setTrapframe envid va) (.ok (frame.regs 10)) { k₁ with ktf := frame }
  | setTrapframe {envid va : Word} {e : ℕ} {k₁ : Kernel} {frame : Trapframe}
      (he : k.Resolves envid true e) (hcur : k.curenv ≠ some e)
      (hload : loadTrapframe va k = .ok frame k₁) (h : k.Like k₁) :
      Acts k (.setTrapframe envid va) (.ok 0#32)
        { k₁ with envs := Function.update k₁.envs e { k₁.envs e with envTf := frame } }
  | sent {envid value srcva perm : Word} {c e : ℕ} {q : TailQueue.Queue ℕ} {k' : Kernel}
      (he : k.Resolves envid false e) (hcur : k.curenv = some c)
      (hrecv : (k.envs e).envIpcRecving ≠ 0#32)
      (hq : (TailQueue.Op.insertTail e).apply k.envSchedList = some q)
      (h : (k.woken c e value perm q).Like k') :
      Acts k (.ipcTrySend envid value srcva perm) (.ok 0#32) k'
  /-- The receiver has been woken when the send fails. -/
  | sentLate {envid value srcva perm : Word} {c e : ℕ} {q : TailQueue.Queue ℕ} {k' : Kernel}
      {err : Err} (hsrc : srcva ≠ 0#32 ∧ isIllegalVa srcva = false)
      (hproper : k.audit = true →
        (TailQueue.Op.insertTail e).proper (NENV + 1) k.envSchedList = true) (hwhy :
          k.SendFails c e srcva) (he : k.Resolves envid false e) (hcur : k.curenv = some c)
      (hrecv : (k.envs e).envIpcRecving ≠ 0#32)
      (hq : (TailQueue.Op.insertTail e).apply k.envSchedList = some q)
      (h : (k.woken c e value perm q).Like k') :
      Acts k (.ipcTrySend envid value srcva perm) (.error (.code err)) k'
  | received {dstva : Word} {c : ℕ} {q : TailQueue.Queue ℕ} {k' : Kernel}
      (hwaits : (Syscall.ipcRecv dstva).Waits) (hcur : k.curenv = some c)
      (hq : (TailQueue.Op.remove c).apply k.envSchedList = some q)
      (h : (k.receiving c dstva q).Scheduled true k') :
      Acts k (.ipcRecv dstva) (.error .popTf) k'

section

variable {k : Kernel}

lemma Syscall.Plain.not_waits {call : Syscall} (h : call.Plain) : ¬ call.Waits := by
  cases call with
  | ipcRecv dstva => exact h.elim
  | _ => exact id

lemma Quiet.acts {x : KernelM Word} (hx : Quiet Exit.IsCode x) {call : Syscall}
    (hplain : call.Plain) :
    wp x k (fun r k' => Syscall.Acts k call (.ok r) k')
      (fun x k' => Syscall.Acts k call (.error x) k') fun _ => True :=

  hx.wp_mono_code (fun _ _ h => .plain hplain h) fun _ _ h => .failed hplain.not_waits h

lemma acts_sysEnvDestroy (envid : Word) :
    wp (sysEnvDestroy envid) k (fun r k' => Syscall.Acts k (.envDestroy envid) (.ok r) k')
      (fun x k' => Syscall.Acts k (.envDestroy envid) (.error x) k') fun _ => True := by
  refine wp_envid2env_bind (.failed id .refl) fun e he => ?_
  rw [wp_bind, envDestroy, wp_bind]
  refine (wp_envFree_acts k e).mono ?_ (fun _ _ hf => hf.elim) fun _ hp => hp
  rintro - k₁ ⟨m, q, hq, rfl⟩
  rw [wp_bind, wp_get, wp_ite]
  refine ⟨fun hcur => ?_, fun hcur => .destroy he hcur hq⟩
  rw [wp_bind, wp_modify]
  refine wp_schedule_scheduled.mono (fun _ _ hf => hf.elim) ?_ fun _ hp => hp
  rintro - k' ⟨rfl, h⟩
  exact .destroySelf he hcur hq h

lemma acts_sysExofork :
    wp sysExofork k (fun r k' => Syscall.Acts k .exofork (.ok r) k')
      (fun x k' => Syscall.Acts k .exofork (.error x) k') fun _ => True := by
  rw [sysExofork, wp_bind, wp_getCurenv]
  refine ⟨fun c hc => ?_, fun _ => trivial⟩
  rw [wp_bind, wp_get, wp_bind, wp_envAlloc]
  cases hfree : k.envFreeList with
  | nil => exact .failed id .refl
  | cons e rest =>
      cases hpage : k.pm.pageFreeList with
      | nil => exact .failed id .refl
      | cons pp prest =>
          cases hasid : (List.range NASID).find? fun i => !asidUsed k.asidBitmap i with
          | none => exact .notForked hc hfree hpage hasid
          | some i =>
              simp only [wp_bind, wp_get, wp_modifyEnv, wp_pure, Function.update_self,
                Function.update_idem]
              have hid : ((k.allocated e rest pp prest (k.envs c).envId i).envs e).envId =
                  k.nextId e := congrArg Env.envId (Function.update_self e _ k.envs)
              have h : Syscall.Acts k _ _ _ := .forked hc hfree hpage hasid
              rw [← hid] at h
              exact h

lemma acts_setEnvStatus (envid : Word) {status : EnvStatus} {call : Syscall} (hw : ¬ call.Waits)
    (hrun : status = .runnable → call = .setEnvStatus envid EnvStatus.runnable.toWord)
    (hno : status ≠ .runnable → call = .setEnvStatus envid EnvStatus.notRunnable.toWord ∧
      status = .notRunnable) :
    wp (setEnvStatus envid status) k (fun r k' => Syscall.Acts k call (.ok r) k')
      (fun x k' => Syscall.Acts k call (.error x) k') fun _ => True := by
  refine wp_envid2env_bind (.failed hw .refl) fun e he => ?_
  rw [wp_bind, updateSchedList, wp_bind, wp_get, wp_ite, wp_ite, wp_pure]
  refine ⟨fun hne => ⟨fun hs => ?_, fun hs => ?_⟩, fun heq => ?_⟩
  · obtain rfl := hrun hs
    subst hs
    exact wp_onSchedList trivial trivial fun q hq => .wake he hne hq
  · obtain ⟨rfl, rfl⟩ := hno hs
    exact wp_onSchedList trivial trivial fun q hq => .block he hne hq
  · rw [wp_bind, wp_modifyEnv, wp_pure]
    have hsame : { k.envs e with envStatus := status } = k.envs e := by
      rw [← not_not.mp heq]
    rw [hsame, Function.update_eq_self]
    by_cases hs : status = .runnable
    · rw [hrun hs]
      exact .sameStatus
    · rw [(hno hs).1]
      exact .sameStatus

lemma acts_sysSetEnvStatus (envid status : Word) :
    wp (sysSetEnvStatus envid status) k
      (fun r k' => Syscall.Acts k (.setEnvStatus envid status) (.ok r) k')
      (fun x k' => Syscall.Acts k (.setEnvStatus envid status) (.error x) k') fun _ => True := by
  rw [sysSetEnvStatus, wp_ite, wp_ite, wp_exit]
  refine ⟨fun h => ?_, fun _ => ⟨fun h => ?_, fun _ => .failed id .refl⟩⟩
  · subst h
    exact acts_setEnvStatus envid id (fun _ => rfl) fun hc => absurd rfl hc
  · subst h
    exact acts_setEnvStatus envid id nofun fun _ => ⟨rfl, rfl⟩

lemma acts_sysSetTrapframe (envid va : Word) :
    wp (sysSetTrapframe envid va) k
      (fun r k' => Syscall.Acts k (.setTrapframe envid va) (.ok r) k')
      (fun x k' => Syscall.Acts k (.setTrapframe envid va) (.error x) k') fun _ => True := by
  rw [sysSetTrapframe, wp_ite, wp_exit]
  refine ⟨fun _ => .failed id .refl, fun _ => ?_⟩
  refine wp_envid2env_bind (.failed id .refl) fun e he => ?_
  rw [wp_bind, wp_get, wp_ite, wp_bind, wp_bind]
  refine ⟨fun hcur => ?_, fun hcur => ?_⟩
  · exact (quiet_loadTrapframe va).wp_mono_run fun frame k₁ hload h =>
      .setTrapframeSelf he hcur hload h
  · exact (quiet_loadTrapframe va).wp_mono_run fun frame k₁ hload h =>
      .setTrapframe he hcur hload h

lemma acts_sysIpcRecv (dstva : Word) :
    wp (sysIpcRecv dstva) k (fun r k' => Syscall.Acts k (.ipcRecv dstva) (.ok r) k')
      (fun x k' => Syscall.Acts k (.ipcRecv dstva) (.error x) k') fun _ => True := by
  rw [sysIpcRecv, wp_ite, wp_exit]
  refine ⟨fun hva => .failed ?_ .refl, fun hva => ?_⟩
  · rintro (h0 | hlegal)
    · exact hva.1 h0
    · rw [hlegal] at hva
      exact absurd hva.2 (by decide)
  have hwaits : dstva = 0#32 ∨ isIllegalVa dstva = false := by
    by_contra hno
    rw [not_or, Bool.not_eq_false] at hno
    exact hva hno
  rw [wp_bind, wp_getCurenv]
  refine ⟨fun c hc => ?_, fun _ => trivial⟩
  rw [wp_bind, wp_modifyEnv, wp_bind]
  refine wp_onSchedList trivial trivial fun q hq => ?_
  rw [wp_bind, wp_modify]
  refine wp_schedule_scheduled.mono (fun _ _ hf => hf.elim) ?_ fun _ hp => hp
  rintro - k' ⟨rfl, h⟩
  exact .received hwaits hc hq h

/-- **The last step of a send**, and when it fails. -/
lemma wp_sendPage (c e : ℕ) (srcva perm : Word) :
    wp (sendPage c e srcva perm) k
      (fun r k' => r = 0#32 ∧ k.Like k' ∧ ¬ k.SendFails c e srcva)
      (fun x k' => x.IsCode ∧ k.Like k' ∧ k.SendFails c e srcva)
      fun _ => ¬ k.SendFails c e srcva := by
  rw [sendPage, wp_bind, wp_get, wp_bind, wp_liftPm, wp_pageLookup]
  have hnone : k.pm.entryAt (k.envs c).envPgdir srcva = none → k.SendFails c e srcva := by
    intro h
    rw [Kernel.SendFails, h]
    trivial
  have hsome : ∀ {w}, k.pm.entryAt (k.envs c).envPgdir srcva = some w → (k.SendFails c e srcva ↔
      pteFrame w < k.pm.npage ∧
        k.pm.InsertFails (k.envs e).envPgdir (pteFrame w) (k.envs e).envIpcDstva) := by
    intro w h
    rw [Kernel.SendFails, h]
  cases hw : k.pm.walk (k.envs c).envPgdir srcva with
  | none => exact ⟨⟨_, rfl⟩, .refl, hnone (by rw [Pmap.entryAt, hw]; rfl)⟩
  | some tj =>
      obtain ⟨t, j⟩ := tj
      have hent : k.pm.entryAt (k.envs c).envPgdir srcva = validWord (k.pm.mem t j) := by
        rw [Pmap.entryAt, hw]
        rfl
      refine ⟨fun hv => ⟨⟨_, rfl⟩, .refl, hnone (by rw [hent, validWord, if_neg hv])⟩, fun hv => ?_⟩
      have hiff := hsome (by rw [hent, validWord, if_pos hv])
      refine ⟨fun hge hf => absurd (hiff.mp hf).1 (not_lt.mpr hge), fun hlt => ?_⟩
      rw [wp_bind, wp_liftPm]
      refine wp_pageInsert_fails.mono (fun _ m h => ?_) (fun x m h => ?_) fun _ h => ?_
      · exact ⟨rfl, ⟨m, _, rfl⟩, fun hf => h (hiff.mp hf).2⟩
      · exact ⟨⟨_, h.1⟩, ⟨m, _, rfl⟩, hiff.mpr ⟨hlt, h.2⟩⟩
      · exact fun hf => h (hiff.mp hf).2

lemma sendFails_woken {c e : ℕ} {value perm srcva : Word} {q : TailQueue.Queue ℕ} :
    (k.woken c e value perm q).SendFails c e srcva ↔ k.SendFails c e srcva := by
  obtain ⟨hc, -, -⟩ := woken_fields k c e value perm q c
  obtain ⟨he, hdst, -⟩ := woken_fields k c e value perm q e
  rw [Kernel.SendFails, Kernel.SendFails, hc, he, hdst]
  rfl

lemma acts_sysIpcTrySend (envid value srcva perm : Word) :
    wp (sysIpcTrySend envid value srcva perm) k
      (fun r k' => Syscall.Acts k (.ipcTrySend envid value srcva perm) (.ok r) k')
      (fun x k' => Syscall.Acts k (.ipcTrySend envid value srcva perm) (.error x) k')
      fun _ => True := by
  rw [sysIpcTrySend, wp_ite, wp_exit]
  refine ⟨fun _ => .failed id .refl, fun hva => ?_⟩
  refine wp_envid2env_bind (.failed id .refl) fun e he => ?_
  rw [wp_bind, wp_get, wp_ite, wp_exit]
  refine ⟨fun _ => .failed id .refl, fun hrecv => ?_⟩
  rw [wp_bind, wp_getCurenv]
  refine ⟨fun c hc => ?_, fun _ => trivial⟩
  rw [wp_bind, wp_modifyEnv, wp_bind]
  refine wp_onSchedList_of fun q hproper hq => ?_
  change wp _ (k.woken c e value perm q) _ _ _
  rw [wp_ite, wp_pure]
  refine ⟨fun hsrc => ?_, fun _ => .sent he hc hrecv hq .refl⟩
  refine (wp_sendPage c e srcva perm).mono ?_ ?_ fun _ _ => trivial
  · rintro - k' ⟨rfl, h, -⟩
    exact .sent he hc hrecv hq h
  · rintro - k' ⟨⟨err, rfl⟩, h, hwhy⟩
    have hlegal : isIllegalVa srcva = false := Bool.eq_false_iff.mpr fun hill => hva ⟨hsrc, hill⟩
    exact .sentLate ⟨hsrc, hlegal⟩ hproper (sendFails_woken.mp hwhy) he hc hrecv hq h

lemma quiet_envid2env (envid : Word) (checkperm : Bool) :
    Quiet Exit.IsCode (envid2env envid checkperm) := by
  intro k
  refine (wp_envid2env_resolves k envid checkperm).mono ?_ ?_ fun _ hp => hp
  · rintro e k' ⟨rfl, -⟩
    exact .refl
  · rintro x k' ⟨rfl, rfl⟩
    exact ⟨⟨_, rfl⟩, .refl⟩

lemma quiet_sysMemAlloc (envid va perm : Word) : Quiet Exit.IsCode (sysMemAlloc envid va perm) := by
  refine .ite (.exit ⟨_, rfl⟩) (Quiet.bind (quiet_envid2env envid true) fun e => ?_)
  exact Quiet.bind (.liftPm exits_pageAlloc) fun pp => Quiet.get.bind fun k =>
    Quiet.bind (.liftPm (exits_pageInsert _ _ _ _ _)) fun _ => .pure _

lemma quiet_sysMemMap (srcid srcva dstid dstva perm : Word) :
    Quiet Exit.IsCode (sysMemMap srcid srcva dstid dstva perm) := by
  refine .ite (.exit ⟨_, rfl⟩) (Quiet.bind (quiet_envid2env srcid true) fun src => ?_)
  refine Quiet.bind (quiet_envid2env dstid true) fun dst => Quiet.get.bind fun k => ?_
  refine Quiet.bind (.liftPm (exits_pageLookup _ _)) fun pp => ?_
  cases pp with
  | none => exact .exit ⟨_, rfl⟩
  | some pp => exact Quiet.bind (.liftPm (exits_pageInsert _ _ _ _ _)) fun _ => .pure _

lemma quiet_sysMemUnmap (envid va : Word) : Quiet Exit.IsCode (sysMemUnmap envid va) := by
  refine .ite (.exit ⟨_, rfl⟩) (Quiet.bind (quiet_envid2env envid true) fun e =>
    Quiet.get.bind fun k => ?_)
  exact Quiet.bind (.liftPm (exits_pageRemove _ _ _)) fun _ => .pure _

lemma quiet_sysPrintCons (s num : Word) : Quiet Exit.IsCode (sysPrintCons s num) := by
  refine .ite (.exit ⟨_, rfl⟩) (Quiet.bind (.forRange (fun i => ?_) _ _) fun _ => .pure _)
  exact (quiet_loadByte _).bind fun b => quiet_printcharc _

lemma quiet_sysCgetc : Quiet Exit.IsCode sysCgetc := by
  intro k
  rw [sysCgetc, wp_bind, wp_get]
  cases k.dev.consIn.dropWhile (· = 0) with
  | nil => trivial
  | cons ch rest => exact ⟨k.pm, _, rfl⟩

lemma quiet_sysWriteDev (va value : Word) : Quiet Exit.IsCode (sysWriteDev va value) := by
  refine .ite (Quiet.bind ?_ fun _ => quiet_voidResult) quiet_voidResult
  exact fun k => ⟨k.pm, _, rfl⟩

/-- **Every system call does what `Syscall.Acts` says.** -/
lemma Syscall.acts (call : Syscall) :
    wp call.run k (fun r k' => Syscall.Acts k call (.ok r) k')
      (fun x k' => Syscall.Acts k call (.error x) k') fun _ => True := by
  cases call with
  | putchar c => exact ((quiet_printcharc _).bind fun _ => quiet_voidResult).acts trivial
  | printCons s num => exact (quiet_sysPrintCons s num).acts trivial
  | getenvid => exact (Quiet.getCurenv.bind fun c => Quiet.get.bind fun k => .pure _).acts trivial
  | yield =>
      refine wp_schedule_scheduled.mono (fun _ _ hf => hf.elim) ?_ fun _ hp => hp
      rintro - k' ⟨rfl, h⟩
      exact .yield h
  | envDestroy envid => exact acts_sysEnvDestroy envid
  | setTlbModEntry envid func =>
      exact wp_envid2env_bind (.failed id .refl) fun e he => .setTlbModEntry he
  | memAlloc envid va perm => exact (quiet_sysMemAlloc envid va perm).acts trivial
  | memMap srcid srcva dstid dstva perm =>
      exact (quiet_sysMemMap srcid srcva dstid dstva perm).acts trivial
  | memUnmap envid va => exact (quiet_sysMemUnmap envid va).acts trivial
  | exofork => exact acts_sysExofork
  | setEnvStatus envid status => exact acts_sysSetEnvStatus envid status
  | setTrapframe envid tf => exact acts_sysSetTrapframe envid tf
  | panic msg => exact trivial
  | ipcTrySend envid value srcva perm => exact acts_sysIpcTrySend envid value srcva perm
  | ipcRecv dstva => exact acts_sysIpcRecv dstva
  | cgetc => exact quiet_sysCgetc.acts trivial
  | writeDev va value => exact (quiet_sysWriteDev va value).acts trivial
  | readDev va => exact (Quiet.ite (Quiet.get.bind fun k => .pure _) (.pure _)).acts trivial

end

/-! ## Traps -/

/-- **What a trap does.**  Either the handler returns, and the frame below `KSTACKTOP` is restored
(`false`), or `env_pop_tf` restores the one of the environment that is run (`true`). -/
inductive Trapframe.Acts (k : Kernel) (tf : Trapframe) : Bool → Kernel → Prop
  | tick {k' : Kernel} (hcause : 0x80000000#32 ≤ tf.cause)
      (h : { k with ktf := tf }.Scheduled false k') : Acts k tf true k'
  | noCall (hcause : tf.cause = CAUSE_USER_ECALL) (hcall : tf.syscall = none) :
      Acts k tf false { k with ktf := tf.setReg 10 (-Err.noSys.toWord) }
  | call {call : Syscall} {r : Word} {k₁ : Kernel} (hcall : tf.Calls call)
      (h : Syscall.Acts { k with ktf := { tf with epc := tf.epc + 4#32 } } call (.ok r) k₁) :
      Acts k tf false { k₁ with ktf := k₁.ktf.setReg 10 r }
  | callFailed {call : Syscall} {e : Err} {k₁ : Kernel} (hcall : tf.Calls call)
      (h : Syscall.Acts { k with ktf := { tf with epc := tf.epc + 4#32 } } call (.error (.code e))
        k₁) : Acts k tf false { k₁ with ktf := k₁.ktf.setReg 10 (-e.toWord) }
  | callGone {call : Syscall} {k' : Kernel} (hcall : tf.Calls call)
      (h : Syscall.Acts { k with ktf := { tf with epc := tf.epc + 4#32 } } call
        (.error .popTf) k') :
      Acts k tf true k'
  | fault {k' : Kernel} (hcause : tf.cause = CAUSE_FAULT_LOAD ∨ tf.cause = CAUSE_FAULT_STORE)
      (h : { k with ktf := tf }.Like k') : Acts k tf false k'
  | queryVpt {k₀ k₁ : Kernel} (instr w : Word) (hcause : tf.cause = CAUSE_FAULT_LOAD)
      (hwindow : UVPT ≤ tf.badvaddr ∧ tf.badvaddr < ULIM)
      (hinstr : loadWord tf.epc { k with ktf := tf } = .ok instr k₀)
      (h : { k with ktf := tf }.Like k₁) :
      Acts k tf false { k₁ with ktf :=
        { tf.setReg (Fin.ofNat 32 (instr >>> 7).toNat) w with epc := tf.epc + 4#32 } }
  | userMod {k₁ : Kernel} {c : ℕ} (hcause : tf.cause = CAUSE_FAULT_STORE)
      (h : { k with ktf := tf.setReg 2 (xstackSp (tf.regs 2)) }.Like k₁)
        (hcur : k.curenv = some c) :
      Acts k tf false { k₁ with ktf :=
        { (tf.setReg 2 (xstackSp (tf.regs 2))).setReg 10 (xstackSp (tf.regs 2)) with
          epc := (k.envs c).envUserTlbModEntry } }

section

variable {k k' : Kernel} {tf : Trapframe}

lemma acts_doSyscall (hcause : tf.cause = CAUSE_USER_ECALL) :
    wp doSyscall { k with ktf := tf } (fun _ k' => tf.Acts k false k')
      (fun x k' => x = .popTf ∧ tf.Acts k true k') fun _ => True := by
  rw [doSyscall, wp_bind, wp_get]
  cases hcall : tf.syscall with
  | none =>
      simp only [wp_modify]
      exact .noCall hcause hcall
  | some call =>
      simp only [wp_bind, wp_modify, wp_callResult]
      refine (Syscall.acts call).mono (fun r k₁ h => .call ⟨hcause, hcall⟩ h) (fun x k₁ h => ?_)
        fun _ hp => hp
      cases x with
      | code e => exact .callFailed ⟨hcause, hcall⟩ h
      | popTf => exact ⟨trivial, .callGone ⟨hcause, hcall⟩ h⟩

lemma quiet_vptEntry {C : Exit → Prop} (d : ℕ) (va : Word) : Quiet C (vptEntry d va) := by
  refine .ite (.pure _) (.ite (.liftPm ⟨fun m => ?_⟩) (.panic _))
  rw [wp_pgdirWalk_false]
  exact ⟨⟩

lemma acts_queryVpt (hcause : tf.cause = CAUSE_FAULT_LOAD)
    (hwindow : UVPT ≤ tf.badvaddr ∧ tf.badvaddr < ULIM) :
    wp queryVpt { k with ktf := tf } (fun _ k' => tf.Acts k false k')
      (fun x k' => x = .popTf ∧ tf.Acts k true k') fun _ => True := by
  rw [queryVpt, wp_bind, wp_get, wp_bind]
  refine (quiet_loadWord _).wp_mono_run fun instr k₁ hinstr h₁ => ?_
  rw [wp_ite, wp_ite, wp_bind, wp_get]
  refine ⟨fun _ => trivial, fun _ => ⟨fun _ => trivial, fun _ => ?_⟩⟩
  cases k₁.curPgdir with
  | none => exact trivial
  | some d =>
      rw [wp_bind]
      refine (quiet_vptEntry d _).wp_mono_none fun res k₂ h₂ => ?_
      rw [wp_modify]
      obtain ⟨m, dev, rfl⟩ := h₁.trans h₂
      exact .queryVpt instr _ hcause hwindow hinstr ⟨m, dev, rfl⟩

lemma acts_userMod (hcause : tf.cause = CAUSE_FAULT_STORE) :
    wp userMod { k with ktf := tf } (fun _ k' => tf.Acts k false k')
      (fun x k' => x = .popTf ∧ tf.Acts k true k') fun _ => True := by
  rw [userMod, wp_bind, wp_get, wp_bind, wp_modify, wp_bind]
  refine (quiet_storeTrapframe _ _).wp_mono_none fun _ k₁ h => ?_
  rw [wp_bind, wp_getCurenv]
  obtain ⟨m, dev, rfl⟩ := h
  refine ⟨fun c hcur => ?_, fun _ => trivial⟩
  rw [wp_bind, wp_get, wp_ite, wp_modify]
  exact ⟨fun _ => .userMod hcause ⟨m, dev, rfl⟩ hcur, fun _ => trivial⟩

/-- **Every trap does what `Trapframe.Acts` says.** -/
lemma Trapframe.acts (k : Kernel) (tf : Trapframe) :
    wp (trap tf) k (fun _ k' => tf.Acts k false k')
      (fun x k' => x = .popTf ∧ tf.Acts k true k') fun _ => True := by
  rw [trap, wp_bind, wp_modify, trapsDispatch, wp_bind, wp_get, wp_ite]
  refine ⟨fun hcause => ?_, fun _ => ?_⟩
  · rw [interruptHandler, wp_bind, wp_get, wp_ite]
    refine ⟨fun _ => ?_, fun _ => trivial⟩
    refine wp_schedule_scheduled.mono (fun _ _ hf => hf.elim) ?_ fun _ hp => hp
    rintro - k' ⟨rfl, h⟩
    exact ⟨rfl, .tick hcause h⟩
  · rw [exceptionHandler, wp_bind, wp_get]
    simp only [wp_ite, wp_panic, wp_bind, wp_getCurPgdir]
    refine ⟨fun _ => trivial, fun _ => ⟨acts_doSyscall, fun _ => ⟨fun hload => ⟨fun hwindow => ?_,
      fun _ => ?_⟩, fun _ => ⟨fun hstore => ⟨fun d _ => ⟨fun _ => ?_, fun _ => ?_⟩,
      fun _ => trivial⟩, fun _ => trivial⟩⟩⟩⟩
    · exact acts_queryVpt hload hwindow
    · exact quiet_normalPageFault.wp_mono_none fun _ _ h => .fault (.inl hload) h
    · exact acts_userMod hstore
    · exact quiet_normalPageFault.wp_mono_none fun _ _ h => .fault (.inr hstore) h

end

/-! ## Events -/

/-- **What an event does.** -/
inductive Event.Acts (k : Kernel) : Event → Kernel → Prop
  | create {img : Image} {priority : Word} {e pp i : ℕ} {rest prest : List ℕ}
      {q : TailQueue.Queue ℕ} {k' : Kernel} (hcur : k.curenv = none)
      (hfree : k.envFreeList = e :: rest) (hpage : k.pm.pageFreeList = pp :: prest)
      (hasid : ((List.range NASID).find? fun i => !asidUsed k.asidBitmap i) = some i)
      (hq : (TailQueue.Op.insertHead e).apply k.envSchedList = some q)
      (h : (k.created e rest pp prest i priority img.eEntry k.pm q).Like k') :
      Acts k (.create img priority) k'
  | trap {tf : Trapframe} {gone : Bool} {k' : Kernel} (hen : k.curenv ≠ none ∨ tf.IsTick)
      (h : tf.Acts k gone k') : Acts k (.trap tf) k'
  | store {va : Word} {b : BitVec 8} {k' : Kernel} (hcur : k.curenv ≠ none) (h : k.Like k') :
      Acts k (.store va b) k'

section

variable {C : Exit → Prop} {k k' : Kernel} {ev : Event}

lemma quiet_loadIcodeMapper (e : ℕ) (va : Word) (offset : ℕ) (perm : Word)
    (src : Option (ℕ → BitVec 8)) (len : ℕ) :
    Quiet Exit.IsCode (loadIcodeMapper e va offset perm src len) := by
  refine Quiet.bind (.liftPm exits_pageAlloc) fun p => Quiet.bind (.liftPm ?_) fun _ =>
    Quiet.get.bind fun k => .liftPm (exits_pageInsert _ _ _ _ _)
  cases src with
  | none => exact .pure _
  | some src => exact .forRange (fun i => .modify _) _ _

lemma quiet_elfLoadSeg (ph : Phdr) (bin : ℕ → BitVec 8) (e : ℕ) :
    Quiet Exit.IsCode (elfLoadSeg ph bin (loadIcodeMapper e)) := by
  refine Quiet.bind (.ite (quiet_loadIcodeMapper _ _ _ _ _ _) (.pure _)) fun _ => ?_
  exact Quiet.bind (.forRange (fun i => quiet_loadIcodeMapper _ _ _ _ _ _) _ _) fun _ =>
    .forRange (fun i => quiet_loadIcodeMapper _ _ _ _ _ _) _ _

lemma Quiet.panicOnK {α : Type} {x : KernelM α} (hx : Quiet Exit.IsCode x) :
    Quiet C (panicOnK x) := by
  intro k
  rw [MosRv.panicOnK, wp_bind, wp_attempt]
  exact hx.wp_mono_code (fun _ _ h => h) fun _ _ _ => trivial

/-- `load_icode` sets the entry point, and leaves everything else alone but the pages. -/
lemma wp_loadIcode_acts (e : ℕ) (b : Binary) {E : Exit → Kernel → Prop}
    {Q : Unit → Kernel → Prop}
    (hQ : ∀ m dev, Q () { k with
      pm := m
      dev := dev
      envs := Function.update k.envs e { k.envs e with
        envTf := { (k.envs e).envTf with epc := b.eEntry } } }) :
    wp (loadIcode e b) k Q E fun _ => True := by
  rw [loadIcode, wp_ite, wp_bind, wp_panic]
  refine ⟨fun _ => ?_, fun _ => trivial⟩
  refine Quiet.wp_mono_none (.forRange (fun i => ?_) _ _) fun _ k₁ h => ?_
  · exact .ite (.panicOnK (quiet_elfLoadSeg _ _ _)) (.pure _)
  · obtain ⟨m, dev, rfl⟩ := h
    exact hQ m dev

lemma wp_envCreate_acts (hcur : k.curenv = none) (img : Image) (priority : Word) :
    wp (envCreate img.toBinary priority) k (fun _ k' => Event.Acts k (.create img priority) k')
      (fun _ _ => False) fun _ => True := by
  cases hfree : k.envFreeList with
  | nil =>
      rw [envCreate, wp_bind, wp_attempt, wp_envAlloc, hfree]
      exact trivial
  | cons e rest =>
      cases hpage : k.pm.pageFreeList with
      | nil =>
          rw [envCreate, wp_bind, wp_attempt, wp_envAlloc, hfree, hpage]
          exact trivial
      | cons pp prest =>
          cases hasid : (List.range NASID).find? fun i => !asidUsed k.asidBitmap i with
          | none =>
              rw [envCreate, wp_bind, wp_attempt, wp_envAlloc, hfree, hpage, hasid]
              exact trivial
          | some i =>
              rw [wp_envCreate_alloc hfree hpage hasid]
              refine wp_loadIcode_acts e img.toBinary fun m dev => ?_
              exact wp_onSchedList trivial trivial fun q hq =>
                .create hcur hfree hpage hasid hq ⟨m, dev, rfl⟩

/-- **Every step does what `Event.Acts` says.** -/
lemma Step.acts (h : Step k ev k') : ev.Acts k k' := by
  obtain ⟨hen, hrun⟩ := h
  have hwp : wp ev.prog k (fun _ k' => ev.Acts k k') (fun _ k' => ev.Acts k k') fun _ => True := by
    cases ev with
    | create img priority =>
        rw [Event.prog, wp_bind]
        exact (wp_envCreate_acts hen img priority).mono (fun _ _ h => h) (fun _ _ hf => hf.elim)
          fun _ hp => hp
    | trap tf =>
        exact (Trapframe.acts k tf).mono (fun _ _ h => .trap hen h) (fun _ _ h => .trap hen h.2)
          fun _ hp => hp
    | store va b =>
        rw [Event.prog, wp_bind, wp_getCurPgdir]
        refine ⟨fun d _ => ?_, fun _ => trivial⟩
        rw [wp_bind, wp_get]
        cases k.pm.entryAt d va with
        | none => exact .store hen.1 .refl
        | some w => exact .store hen.1 ⟨_, _, rfl⟩
  obtain hok | hexit := hrun
  · exact hwp.of_ok hok
  · exact hwp.of_exit hexit

end

end MosRv
