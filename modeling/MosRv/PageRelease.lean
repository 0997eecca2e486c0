import MosRv.PageInv

/-!
# Giving back what an env holds

`env_free` empties the slots of one env, one after another.  `GivesBack` sums up what such a run has
done: every page has been counted down once for each slot that named it, the pages whose count came
to zero are on the free list, nothing has been written but to the page tables and the directory of
that env, and no slot of another env has changed.
-/

namespace MosRv

open RefGraph

/-- The frame holds a page table of `e`, or its directory. -/
def TableOf (own : ℕ → Bool) (dirs : ℕ → Option ℕ) (m : Pmap) (e f : ℕ) : Prop :=
  ∃ s : Slot, s.IsTable ∧ s.env = e ∧ target own dirs m s = some f

/-- **From `m` to `m'`, slots of `e` have been given back**; the live directories were `dirs` and
are `dirs'`. -/
structure GivesBack (T : Template) (n : ℕ) (dirs dirs' : ℕ → Option ℕ) (e : ℕ) (m m' : Pmap) :
    Prop where
  released : Released (slots n) (target T.own dirs m) (target T.own dirs' m')
    (fun p => (m.ppRef p).toNat) (fun p => (m'.ppRef p).toNat) m.pageFreeList m'.pageFreeList
  other : ∀ s, s.env ≠ e → slotWord T.own dirs' m' s = slotWord T.own dirs m s
  mem : ∀ f, ¬ TableOf T.own dirs m e f → m'.mem f = m.mem f

section

variable {T : Template} {n : ℕ} {dirs dirs' : ℕ → Option ℕ} {m m' m'' : Pmap} {e d i t : ℕ}
  {va : Word}

namespace GivesBack

lemma refl : GivesBack T n dirs dirs e m m := ⟨.refl, fun _ _ => rfl, fun _ _ => rfl⟩

lemma trans (h : GivesBack T n dirs dirs e m m') (h' : GivesBack T n dirs dirs' e m' m'') :
    GivesBack T n dirs dirs' e m m'' := by
  refine ⟨h.released.trans h'.released, fun s hs => (h'.other s hs).trans (h.other s hs),
    fun f hf => ?_⟩
  rw [h'.mem f, h.mem f hf]
  rintro ⟨s, hs, henv, htgt⟩
  exact hf ⟨s, hs, henv, h.released.tgt_of_some htgt⟩

end GivesBack

namespace Pages

/-- An entry of a page table of `e` has been cleared. -/
lemma givesBack_remove (h : Pages T n dirs m) (he : dirs e = some d) (ho : T.own (PDX va) = true)
    (hcase : RemoveCase m d va m') : GivesBack T n dirs dirs e m m' := by
  have hsw := hcase.slotWord h.wellFormed he ho
  have htgt := target_eq_update (by simp) hsw
  rw [Option.map_none] at htgt
  cases hcase with
  | absent => exact .refl
  | @removed t ht hval hr =>
      have ht' := (tableAt_iff ho he).mp ht
      have hold := target_pte_eq_some.mpr ⟨t, ht', PTX_lt va, hval, rfl⟩
      refine ⟨?_, fun s hs => ?_, fun f hf => ?_⟩
      · rw [htgt, Pmap.write_pageFreeList, release_free, Pmap.write_ppRef, toNat_release hr]
        exact .unlink h.counted hold
      · rw [hsw, if_neg]
        rintro rfl
        exact hs rfl
      · have hne : f ≠ t := fun hc => hf ⟨.pde e (PDX va), trivial, rfl, hc ▸ ht'⟩
        rw [Pmap.write_mem_of_ne _ _ _ hne]
        rfl

/-- An empty page table of `e` has been given back. -/
lemma givesBack_dropTable (h : Pages T n dirs m) (he : dirs e = some d)
    (ht : target T.own dirs m (.pde e i) = some t)
    (hempty : ∀ j < 1024, ¬ HasFlag (m.mem t j) PTE_V) :
    GivesBack T n dirs dirs e m ((m.write d i 0#32).release t) := by
  refine ⟨?_, fun s hs => ?_, fun f hf => ?_⟩
  · have hr : (m.write d i 0#32).ppRef t ≠ 0#16 := h.ppRef_ne_zero ht
    rw [(h.dropTable he ht hempty).2, release_free, toNat_release hr]
    exact .unlink h.counted ht
  · refine (slotWord_clear_dir h.wellFormed he ht hempty s).trans (if_neg ?_)
    rintro rfl
    exact hs rfl
  · have hne : f ≠ d := fun hc => hf ⟨.dir e, trivial, rfl, hc ▸ he⟩
    rw [Pmap.release_mem, Pmap.write_mem_of_ne _ _ _ hne]

/-- The directory of `e` has been given back, which had no page tables left. -/
lemma givesBack_dropDir (h : Pages T n dirs m) (he : dirs e = some d)
    (hempty : ∀ i, target T.own dirs m (.pde e i) = none) :
    GivesBack T n dirs (Function.update dirs e none) e m (m.release d) := by
  have htgt : target T.own (Function.update dirs e none) (m.release d) =
      Function.update (target T.own dirs m) (.dir e) none := by
    refine target_dropDir (fun s hs hsd => ?_) (fun _ _ => rfl) d
    cases s with
    | dir e' => exact absurd (congrArg Slot.dir hs) hsd
    | pde e' i =>
        obtain rfl : e' = e := hs
        exact hempty i
    | pte e' i j =>
        obtain rfl : e' = e := hs
        rw [target, slotWord_pte_of_no_table (hempty i), Option.map_none]
  refine ⟨?_, fun s hs => ?_, fun _ _ => rfl⟩
  · rw [htgt, release_free, toNat_release (h.ppRef_ne_zero (s := .dir e) he)]
    exact .unlink h.counted he
  · rw [slotWord_update_dirs hs]
    rfl

end Pages

end

end MosRv
