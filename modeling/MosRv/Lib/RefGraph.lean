import Mathlib.Tactic
import Mathlib.Data.Finset.Card

/-!
# Reference counting over a finite set of slots

The general shape behind counted resources: finitely many *slots* `σ`, each holding at most one
target in `π`, a count per target, and a free list.  `refs S tgt p` is the number of slots of `S`
that name `p`.

`Counted` is the invariant a counted pool keeps: what is free is unreferenced and counted zero,
counts never fall below the number of references, and a target that is referenced at all is
counted exactly.  (An unreferenced target may keep a positive count: that is a leak, and leaks are
harmless.)  Some slots are *exclusive*: what they name is named by no other slot.

The operations on the pool are `Counted.alloc` (take the head of the free list), `Counted.link`
(fill an empty slot and count up), `Counted.unlink` (empty a slot, count down and free at zero)
and `Counted.forget` (empty exclusive slots without counting down).  `Released` sums up a run of
`Counted.unlink`s.
-/

namespace RefGraph

variable {σ π : Type} [DecidableEq π]

/-! ## Counting references -/

/-- The number of slots of `S` that name `p`. -/
def refs (S : Finset σ) (tgt : σ → Option π) (p : π) : ℕ :=
  (S.filter fun s => tgt s = some p).card

section Refs

variable {S : Finset σ} {tgt tgt' : σ → Option π} {s : σ} {p q : π}

lemma refs_eq_zero_iff : refs S tgt p = 0 ↔ ∀ s ∈ S, tgt s ≠ some p := by
  rw [refs, Finset.card_eq_zero, Finset.filter_eq_empty_iff]

lemma refs_pos (hs : s ∈ S) (h : tgt s = some p) : 0 < refs S tgt p :=
  Finset.card_pos.mpr ⟨s, Finset.mem_filter.mpr ⟨hs, h⟩⟩

lemma exists_of_refs_pos (h : 0 < refs S tgt p) : ∃ s ∈ S, tgt s = some p := by
  obtain ⟨s, hs⟩ := Finset.card_pos.mp h
  exact ⟨s, (Finset.mem_filter.mp hs).1, (Finset.mem_filter.mp hs).2⟩

lemma refs_mono {S' : Finset σ} (h : ∀ s ∈ S, tgt s = some p → s ∈ S' ∧ tgt' s = some p) :
    refs S tgt p ≤ refs S' tgt' p := by
  apply Finset.card_le_card
  intro s hs
  obtain ⟨hs, ht⟩ := Finset.mem_filter.mp hs
  exact Finset.mem_filter.mpr (h s hs ht)

lemma refs_congr (h : ∀ s ∈ S, tgt s = some p ↔ tgt' s = some p) :
    refs S tgt p = refs S tgt' p := by
  rw [refs, refs, Finset.filter_congr h]

/-- Filling an empty slot adds one reference to its new target. -/
lemma refs_update_some [DecidableEq σ] (hs : s ∈ S) (h : tgt s = none) :
    refs S (Function.update tgt s (some p)) q = refs S tgt q + if q = p then 1 else 0 := by
  have hsplit : S.filter (fun t => Function.update tgt s (some p) t = some q)
      = if q = p then insert s (S.filter fun t => tgt t = some q)
        else S.filter fun t => tgt t = some q := by
    ext t
    by_cases ht : t = s
    · subst ht
      by_cases hq : q = p
      · simp [hq, hs]
      · simp [hq, h, Ne.symm hq]
    · by_cases hq : q = p <;> simp [ht, hq]
  rw [refs, hsplit]
  split_ifs with hq
  · rw [Finset.card_insert_of_notMem (by simp [h]), refs]
  · rfl

/-- Emptying a slot takes one reference from its old target. -/
lemma refs_update_none [DecidableEq σ] (hs : s ∈ S) (h : tgt s = some p) :
    refs S (Function.update tgt s none) q + (if q = p then 1 else 0) = refs S tgt q := by
  have hback : Function.update (Function.update tgt s none) s (some p) = tgt := by
    rw [Function.update_idem, ← h, Function.update_eq_self]
  rw [← refs_update_some hs (Function.update_self s none tgt), hback]

/-- A slot that comes to name something else adds no reference to `q` … -/
lemma refs_update_le_of_ne [DecidableEq σ] {x : Option π} (hne : x ≠ some q) :
    refs S (Function.update tgt s x) q ≤ refs S tgt q := by
  refine refs_mono fun t ht hq => ⟨ht, ?_⟩
  have hts : t ≠ s := by
    rintro rfl
    exact hne (by rwa [Function.update_self] at hq)
  rwa [Function.update_of_ne hts] at hq

/-- … and in any case at most one. -/
lemma refs_update_lt [DecidableEq σ] {x : Option π} {n : ℕ} (h : refs S tgt q < n) :
    refs S (Function.update tgt s x) q < n + 1 := by
  have hsub : (S.filter fun t => Function.update tgt s x t = some q) ⊆
      insert s (S.filter fun t => tgt t = some q) := by
    intro t ht
    obtain ⟨hmem, ht⟩ := Finset.mem_filter.mp ht
    by_cases hts : t = s
    · rw [hts]
      exact Finset.mem_insert_self _ _
    · rw [Function.update_of_ne hts] at ht
      exact Finset.mem_insert_of_mem (Finset.mem_filter.mpr ⟨hmem, ht⟩)
  have hcard := (Finset.card_le_card hsub).trans (Finset.card_insert_le _ _)
  exact Nat.lt_succ_of_le (hcard.trans h)

end Refs

/-! ## The invariant of a counted pool -/

/-- A counted pool: `S` are all slots, `excl` the exclusive ones, `pool` the targets that are
managed at all, `tgt` what each slot names, `cnt` the counts and `free` the free list.  A target
that is not referenced may still be counted (it leaks), unless `strict`. -/
structure Counted (S : Finset σ) (excl : σ → Prop) (pool : π → Prop) (strict : Prop)
    (tgt : σ → Option π) (cnt : π → ℕ) (free : List π) : Prop where
  support : ∀ s, tgt s ≠ none → s ∈ S
  free_nodup : free.Nodup
  free_pool : ∀ p ∈ free, pool p
  tgt_pool : ∀ s p, tgt s = some p → pool p
  free_unref : ∀ p ∈ free, ∀ s, tgt s ≠ some p
  free_cnt : ∀ p ∈ free, cnt p = 0
  refs_le : ∀ p, refs S tgt p ≤ cnt p
  cnt_eq : ∀ p, refs S tgt p ≠ 0 → cnt p = refs S tgt p
  strict_eq : strict → ∀ p, pool p → cnt p = refs S tgt p
  unique : ∀ s s' p, excl s → tgt s = some p → tgt s' = some p → s' = s

namespace Counted

variable {S : Finset σ} {excl : σ → Prop} {pool : π → Prop} {strict : Prop}
    {tgt : σ → Option π} {cnt : π → ℕ}
  {free : List π} {s : σ} {p : π}

lemma mem_of_tgt (h : Counted S excl pool strict tgt cnt free) (hs : tgt s = some p) : s ∈ S :=
  h.support s (by simp [hs])

lemma cnt_of_tgt (h : Counted S excl pool strict tgt cnt free) (hs : tgt s = some p) :
    cnt p = refs S tgt p :=
  h.cnt_eq p (refs_pos (h.mem_of_tgt hs) hs).ne'

lemma cnt_pos_of_tgt (h : Counted S excl pool strict tgt cnt free) (hs : tgt s = some p) :
    0 < cnt p :=
  h.cnt_of_tgt hs ▸ refs_pos (h.mem_of_tgt hs) hs

lemma notMem_free_of_tgt (h : Counted S excl pool strict tgt cnt free) (hs : tgt s = some p) :
    p ∉ free := fun hp => h.free_unref p hp s hs

/-- An exclusive slot holds the only reference to its target. -/
lemma refs_of_excl (h : Counted S excl pool strict tgt cnt free) (he : excl s)
    (hs : tgt s = some p) :
    refs S tgt p = 1 := by
  rw [refs, Finset.card_eq_one]
  refine ⟨s, ?_⟩
  ext t
  rw [Finset.mem_filter, Finset.mem_singleton]
  constructor
  · rintro ⟨-, ht⟩
    exact h.unique s t p he hs ht
  · rintro rfl
    exact ⟨h.mem_of_tgt hs, hs⟩

/-- Taking the head off the free list. -/
lemma alloc (h : Counted S excl pool strict tgt cnt (p :: free)) :
    Counted S excl pool strict tgt cnt free where
  support := h.support
  free_nodup := (List.nodup_cons.mp h.free_nodup).2
  free_pool q hq := h.free_pool q (List.mem_cons_of_mem _ hq)
  tgt_pool := h.tgt_pool
  free_unref q hq := h.free_unref q (List.mem_cons_of_mem _ hq)
  free_cnt q hq := h.free_cnt q (List.mem_cons_of_mem _ hq)
  refs_le := h.refs_le
  cnt_eq := h.cnt_eq
  strict_eq := h.strict_eq
  unique := h.unique

/-- Filling the empty slot `s` with `p` and counting `p` up.  `p` is counted exactly (it is fresh,
or already referenced), is not free, and exclusivity is respected on both sides. -/
lemma link [DecidableEq σ] (h : Counted S excl pool strict tgt cnt free) (hs : s ∈ S)
    (hnone : tgt s = none)
    (hpool : pool p) (hfree : p ∉ free) (hcnt : cnt p = refs S tgt p)
    (hfresh : excl s → ∀ t, tgt t ≠ some p) (hexcl : ∀ t, excl t → tgt t ≠ some p) :
    Counted S excl pool strict (Function.update tgt s (some p)) (Function.update cnt p (cnt p + 1))
      free where
  support t ht := by
    by_cases hts : t = s
    · exact hts ▸ hs
    · exact h.support t (by simpa [hts] using ht)
  free_nodup := h.free_nodup
  free_pool := h.free_pool
  tgt_pool t q htq := by
    by_cases hts : t = s
    · subst hts
      simp only [Function.update_self, Option.some.injEq] at htq
      exact htq ▸ hpool
    · exact h.tgt_pool t q (by simpa [hts] using htq)
  free_unref q hq t htq := by
    by_cases hts : t = s
    · subst hts
      simp only [Function.update_self, Option.some.injEq] at htq
      exact hfree (htq ▸ hq)
    · exact h.free_unref q hq t (by simpa [hts] using htq)
  free_cnt q hq := by
    have hqp : q ≠ p := fun hqp => hfree (hqp ▸ hq)
    rw [Function.update_of_ne hqp]
    exact h.free_cnt q hq
  refs_le q := by
    rw [refs_update_some hs hnone]
    by_cases hq : q = p
    · subst hq
      simp [hcnt]
    · simpa [hq] using h.refs_le q
  cnt_eq q hne := by
    rw [refs_update_some hs hnone] at hne ⊢
    by_cases hq : q = p
    · subst hq
      simp [hcnt]
    · simp only [hq, if_false, add_zero] at hne ⊢
      rw [Function.update_of_ne hq]
      exact h.cnt_eq q hne
  strict_eq hstrict q hpq := by
    rw [refs_update_some hs hnone]
    by_cases hq : q = p
    · subst hq
      simp [hcnt]
    · simpa [hq] using h.strict_eq hstrict q hpq
  unique t t' q het htq ht'q := by
    by_cases hts : t = s <;> by_cases hts' : t' = s
    · rw [hts, hts']
    · subst hts
      simp only [Function.update_self, Option.some.injEq] at htq
      rw [Function.update_of_ne hts', ← htq] at ht'q
      exact absurd ht'q (hfresh het t')
    · subst hts'
      simp only [Function.update_self, Option.some.injEq] at ht'q
      rw [Function.update_of_ne hts, ← ht'q] at htq
      exact absurd htq (hexcl t het)
    · rw [Function.update_of_ne hts] at htq
      rw [Function.update_of_ne hts'] at ht'q
      exact h.unique t t' q het htq ht'q

/-- Emptying a slot, counting its target down, and freeing the target when the count reaches
zero. -/
lemma unlink [DecidableEq σ] (h : Counted S excl pool strict tgt cnt free) (hs : tgt s = some p) :
    Counted S excl pool strict (Function.update tgt s none) (Function.update cnt p (cnt p - 1))
      (if cnt p = 1 then p :: free else free) := by
  have hmem := h.mem_of_tgt hs
  have hcnt := h.cnt_of_tgt hs
  have hpos := h.cnt_pos_of_tgt hs
  have hnot := h.notMem_free_of_tgt hs
  have hsub : ∀ t q, Function.update tgt s none t = some q → tgt t = some q := by
    intro t q htq
    by_cases hts : t = s
    · simp [hts] at htq
    · rwa [Function.update_of_ne hts] at htq
  have hself := refs_update_none (q := p) hmem hs
  rw [if_pos rfl] at hself
  -- what is free afterwards was free before, or is `p` with its last reference gone
  have hfree : ∀ q ∈ (if cnt p = 1 then p :: free else free), q ∈ free ∨ (q = p ∧ cnt p = 1) := by
    intro q hq
    split_ifs at hq with h1
    · rcases List.mem_cons.mp hq with rfl | hq
      · exact .inr ⟨rfl, h1⟩
      · exact .inl hq
    · exact .inl hq
  constructor
  · intro t ht
    obtain ⟨q, hq⟩ := Option.ne_none_iff_exists'.mp ht
    exact h.mem_of_tgt (hsub t q hq)
  · split_ifs
    · exact List.nodup_cons.mpr ⟨hnot, h.free_nodup⟩
    · exact h.free_nodup
  · intro q hq
    rcases hfree q hq with hq | ⟨rfl, -⟩
    · exact h.free_pool q hq
    · exact h.tgt_pool s q hs
  · exact fun t q htq => h.tgt_pool t q (hsub t q htq)
  · intro q hq t htq
    rcases hfree q hq with hq | ⟨rfl, h1⟩
    · exact h.free_unref q hq t (hsub t q htq)
    · have hz : refs S (Function.update tgt s none) q = 0 := by omega
      exact refs_eq_zero_iff.mp hz t (h.mem_of_tgt (hsub t q htq)) htq
  · intro q hq
    rcases hfree q hq with hq | ⟨rfl, h1⟩
    · have hqp : q ≠ p := fun hqp => hnot (hqp ▸ hq)
      rw [Function.update_of_ne hqp]
      exact h.free_cnt q hq
    · simp [h1]
  · intro q
    by_cases hq : q = p
    · subst hq
      rw [Function.update_self]
      omega
    · have hoff := refs_update_none (q := q) hmem hs
      rw [if_neg hq, add_zero] at hoff
      rw [Function.update_of_ne hq, hoff]
      exact h.refs_le q
  · intro q hne
    by_cases hq : q = p
    · subst hq
      rw [Function.update_self]
      omega
    · have hoff := refs_update_none (q := q) hmem hs
      rw [if_neg hq, add_zero] at hoff
      rw [Function.update_of_ne hq, hoff]
      exact h.cnt_eq q (hoff ▸ hne)
  · intro hstrict q hpq
    by_cases hq : q = p
    · subst hq
      rw [Function.update_self]
      omega
    · have hoff := refs_update_none (q := q) hmem hs
      rw [if_neg hq, add_zero] at hoff
      rw [Function.update_of_ne hq, hoff]
      exact h.strict_eq hstrict q hpq
  · exact fun t t' q he ht ht' => h.unique t t' q he (hsub t q ht) (hsub t' q ht')

/-- Emptying exclusive slots without counting down: their targets leak, the invariant stays. -/
lemma forget {tgt' : σ → Option π} (h : Counted S excl pool strict tgt cnt free)
    (hsub : ∀ t, tgt' t = tgt t ∨ (tgt' t = none ∧ excl t)) (hstrict : strict → tgt' = tgt) :
    Counted S excl pool strict tgt' cnt free := by
  have hold : ∀ t q, tgt' t = some q → tgt t = some q := by
    intro t q htq
    rcases hsub t with ht | ⟨ht, -⟩
    · rwa [ht] at htq
    · simp [ht] at htq
  constructor
  · intro t ht
    obtain ⟨q, hq⟩ := Option.ne_none_iff_exists'.mp ht
    exact h.mem_of_tgt (hold t q hq)
  · exact h.free_nodup
  · exact h.free_pool
  · exact fun t q htq => h.tgt_pool t q (hold t q htq)
  · exact fun q hq t htq => h.free_unref q hq t (hold t q htq)
  · exact h.free_cnt
  · exact fun q => (refs_mono fun t ht htq => ⟨ht, hold t q htq⟩).trans (h.refs_le q)
  · intro q hne
    obtain ⟨t₀, ht₀, htq₀⟩ := exists_of_refs_pos (Nat.pos_of_ne_zero hne)
    have hcnt := h.cnt_of_tgt (hold t₀ q htq₀)
    rw [hcnt]
    apply refs_congr
    intro t _
    refine ⟨fun htq => ?_, hold t q⟩
    -- a forgotten slot naming `q` would be the only one, but `t₀` still names it
    rcases hsub t with ht | ⟨ht, he⟩
    · rwa [ht]
    · have heq := h.unique t t₀ q he htq (hold t₀ q htq₀)
      rw [heq, ht] at htq₀
      simp at htq₀
  · intro hs
    rw [hstrict hs]
    exact h.strict_eq hs
  · exact fun t t' q he ht ht' => h.unique t t' q he (hold t q ht) (hold t' q ht')

end Counted

/-! ## What a run of releases has done -/

/-- From one state of the pool to the other, slots have been emptied, each target has been counted
down by the references it lost, and the targets whose count came to zero have been put on the free
list. -/
structure Released (S : Finset σ) (tgt tgt' : σ → Option π) (cnt cnt' : π → ℕ)
    (free free' : List π) :
    Prop where
  sub : ∀ s, tgt' s = tgt s ∨ tgt' s = none
  cnt_add : ∀ p, cnt' p + refs S tgt p = cnt p + refs S tgt' p
  freed : ∃ l, free' = l ++ free ∧ l.Nodup ∧ ∀ p, p ∈ l ↔ cnt p ≠ 0 ∧ cnt' p = 0

namespace Released

variable {S : Finset σ} {tgt tgt' tgt'' : σ → Option π} {cnt cnt' cnt'' : π → ℕ}
  {free free' free'' : List π} {s : σ} {p : π}

lemma refl : Released S tgt tgt cnt cnt free free :=
  ⟨fun _ => .inl rfl, fun _ => rfl, [], rfl, List.nodup_nil, fun p => by simp⟩

lemma tgt_of_some (h : Released S tgt tgt' cnt cnt' free free') (hs : tgt' s = some p) :
    tgt s = some p := by
  rcases h.sub s with heq | hnone
  · rw [← heq, hs]
  · rw [hnone] at hs
    cases hs

lemma cnt_le (h : Released S tgt tgt' cnt cnt' free free') (p : π) : cnt' p ≤ cnt p := by
  have hle : refs S tgt' p ≤ refs S tgt p := refs_mono fun s hs hp => ⟨hs, h.tgt_of_some hp⟩
  have := h.cnt_add p
  omega

lemma trans (h : Released S tgt tgt' cnt cnt' free free')
    (h' : Released S tgt' tgt'' cnt' cnt'' free' free'') :
    Released S tgt tgt'' cnt cnt'' free free'' := by
  obtain ⟨l, rfl, hl, hmem⟩ := h.freed
  obtain ⟨l', rfl, hl', hmem'⟩ := h'.freed
  refine ⟨fun s => ?_, fun p => ?_, l' ++ l, (List.append_assoc _ _ _).symm, ?_, fun p => ?_⟩
  · rcases h'.sub s with heq | hnone
    · rw [heq]
      exact h.sub s
    · exact .inr hnone
  · have h₁ := h.cnt_add p
    have h₂ := h'.cnt_add p
    omega
  · refine List.nodup_append.mpr ⟨hl', hl, fun p hp q hq hpq => ?_⟩
    subst hpq
    exact ((hmem' p).mp hp).1 ((hmem p).mp hq).2
  · have h₁ := h.cnt_le p
    have h₂ := h'.cnt_le p
    rw [List.mem_append, hmem, hmem']
    omega

/-- `Counted.unlink`. -/
lemma unlink [DecidableEq σ] {excl : σ → Prop} {pool : π → Prop} {strict : Prop}
    (h : Counted S excl pool strict tgt cnt free) (hs : tgt s = some p) :
    Released S tgt (Function.update tgt s none) cnt (Function.update cnt p (cnt p - 1)) free
      (if cnt p = 1 then p :: free else free) := by
  have hmem := h.mem_of_tgt hs
  have hpos := h.cnt_pos_of_tgt hs
  have hrefs : ∀ q, (Function.update cnt p (cnt p - 1)) q + refs S tgt q =
      cnt q + refs S (Function.update tgt s none) q := by
    intro q
    have hq := refs_update_none (q := q) hmem hs
    by_cases hqp : q = p
    · subst hqp
      rw [if_pos rfl] at hq
      rw [Function.update_self]
      omega
    · rw [if_neg hqp] at hq
      rw [Function.update_of_ne hqp]
      omega
  have hzero : ∀ q, (cnt q ≠ 0 ∧ Function.update cnt p (cnt p - 1) q = 0) ↔ q = p ∧ cnt p = 1 := by
    intro q
    by_cases hqp : q = p
    · subst hqp
      rw [Function.update_self]
      exact ⟨fun hc => ⟨rfl, by omega⟩, fun hc => by omega⟩
    · rw [Function.update_of_ne hqp]
      exact ⟨fun hc => absurd hc.2 hc.1, fun hc => absurd hc.1 hqp⟩
  refine ⟨fun t => ?_, hrefs, ?_⟩
  · by_cases hts : t = s
    · exact .inr (hts ▸ Function.update_self _ _ _)
    · exact .inl (Function.update_of_ne hts _ _)
  · split_ifs with h1
    · exact ⟨[p], rfl, List.nodup_singleton p,
        fun q => by rw [hzero, List.mem_singleton]; simp [h1]⟩
    · exact ⟨[], rfl, List.nodup_nil, fun q => by rw [hzero]; simp [h1]⟩

end Released

end RefGraph
