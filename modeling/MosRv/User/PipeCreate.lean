import MosRv.User.Fd

/-!
# Making a pipe (`pipe` in `user/lib/pipe.c`)

`pipe` takes two `struct Fd` pages and the page of the pipe, one after the other, and maps the last
of them twice.  Where a step fails, a ladder of labels gives back what has been taken, last things
first; `onError` is one rung.  `fd_alloc` does not take the page that it finds, so the second search
depends on the first page being mapped.
-/

namespace MosRv.Fd

open Prog
open Fs (O_RDONLY O_WRONLY)

/-- `pipe` from the label-free part of step 2 on, for the two pages that it has by then. -/
def pipeData (fd0 fd1 : Word) : ProcM (Word × Word) := do
  let va := fd2data fd0
  syscallMemAlloc va (PTE_W ||| PTE_LIBRARY)
  -- `err3:`
  onError (syscallMemMap va (fd2data fd1) (PTE_W ||| PTE_LIBRARY)) (fdClose va)
  storeWord (fdDevId fd0) 112#32
  storeWord (fdOmode fd0) O_RDONLY
  storeWord (fdDevId fd1) 112#32
  storeWord (fdOmode fd1) O_WRONLY
  pure (fd2num fd0, fd2num fd1)

/-- `pipe`, which returns the two numbers. -/
def pipe : ProcM (Word × Word) := do
  let fd0 ← fdAlloc
  syscallMemAlloc fd0 (PTE_W ||| PTE_LIBRARY)
  -- `err1:`
  onError (do
    let fd1 ← fdAlloc
    syscallMemAlloc fd1 (PTE_W ||| PTE_LIBRARY)
    -- `err2:`
    onError (pipeData fd0 fd1) (fdClose fd1)) (fdClose fd0)

/-- The pages that `page_alloc` hands out are mapped nowhere, and it hands out none twice. -/
structure Process.Fresh (s : Process) : Prop where
  unmapped : ∀ n p, s.grants n = some p → ∀ x, s.spaces.target x ≠ some p
  once : ∀ n n' p, s.grants n = some p → s.grants n' = some p → n = n'

/-- The windows of numbers that are not in use are not mapped. -/
def Process.WindowsClear (s : Process) : Prop :=
  ∀ d < MAXFD, s.entry (fdPage d) = none → ∀ i < 1024, s.entry (dataPage d + i) = none

/-- There is no room for a pipe: of the numbers that `fd_alloc` tries, less than two are not in use,
or `page_alloc` refuses one of four pages. -/
def Process.PipeShort (s : Process) : Prop :=
  (∀ d < MAXFD - 1, ∀ d' < MAXFD - 1, s.entry (fdPage d) = none →
    s.entry (fdPage d') = none → d = d') ∨
    ∃ k < 4, s.grants k = none

/-- How `pipe` maps a page. -/
def pipeMapping (page : ℕ) : Mapping := ⟨page, givenFlags (PTE_W ||| PTE_LIBRARY)⟩

/-- A pipe has been made: `p₀` and `p₁` are the `struct Fd` pages, and `p₂` is all that is in the
two windows. -/
structure Piped (s s' : Process) (d₀ d₁ p₀ p₁ p₂ : ℕ) : Prop where
  ne : d₀ ≠ d₁
  unused₀ : s.entry (fdPage d₀) = none
  unused₁ : s.entry (fdPage d₁) = none
  fresh : ∀ x, s.spaces.target x ≠ some p₂
  zero : ∀ i, s'.mem p₂ i = 0#32
  fd₀ : s'.entry (fdPage d₀) = some (pipeMapping p₀)
  fd₁ : s'.entry (fdPage d₁) = some (pipeMapping p₁)
  window : ∀ d, d = d₀ ∨ d = d₁ → ∀ i < 1024,
    s'.entry (dataPage d + i) = if i = 0 then some (pipeMapping p₂) else none
  dev₀ : s'.mem p₀ 0 = 112#32
  dev₁ : s'.mem p₁ 0 = 112#32
  omode₀ : s'.mem p₀ 2 = O_RDONLY
  omode₁ : s'.mem p₁ 2 = O_WRONLY
  frame : ∀ x, x ≠ (s.env, fdPage d₀) → x ≠ (s.env, fdPage d₁) → x ≠ (s.env, dataPage d₀) →
    x ≠ (s.env, dataPage d₁) → s'.spaces x = s.spaces x

/-! ## The rungs -/

section

variable {s : Process} {E : Word → Process → Prop} {P : Stop → Prop} {d₀ d₁ p₀ p₁ : ℕ}

lemma wp_fdClose {va : Word} {Q : Unit → Process → Prop} (hva : isIllegalVa va = false) :
    wp (fdClose va) s Q E P ↔ Q () (s.setEntry (pn va) none) := by
  rw [fdClose, wp_bind, wp_syscallMemUnmap hva]
  rfl

lemma hasFlag_pipeMapping (p : ℕ) : HasFlag (pipeMapping p).perm PTE_W := by
  change HasFlag (givenFlags (PTE_W ||| PTE_LIBRARY)) PTE_W
  decide

/-- A store to a field of a `struct Fd`. -/
lemma wp_storeField {w : Word} {Q : Unit → Process → Prop} {d k p : ℕ} (hd : d < 32) (hk : k < 4096)
    (h : s.entry (fdPage d) = some (pipeMapping p)) :
    wp (storeWord (index2fd (BitVec.ofNat 32 d) + BitVec.ofNat 32 k) w) s Q E P ↔
      Q () (s.setWord p (k / 4) w) := by
  rw [← pn_field hd hk] at h
  rw [wp_storeWord h (hasFlag_pipeMapping p), offset_field hd hk]
  rfl

lemma fdDevId_eq (fd : Word) : fdDevId fd = fd + BitVec.ofNat 32 0 := (BitVec.add_zero fd).symm

/-- The state after step 2, when the page of the pipe is `p`. -/
def Process.pipeMapped (s : Process) (d₀ d₁ p : ℕ) : Process :=
  ((s.advance.zeroPage p).setEntry (dataPage d₀) (some (pipeMapping p))).setEntry (dataPage d₁)
    (some (pipeMapping p))

/-- The state after step 3. -/
def Process.pipeSet (s : Process) (d₀ d₁ p₀ p₁ p : ℕ) : Process :=
  ((((s.pipeMapped d₀ d₁ p).setWord p₀ 0 112#32).setWord p₀ 2 O_RDONLY).setWord p₁ 0
    112#32).setWord p₁ 2 O_WRONLY

/-- Steps 2 and 3 are done, or what step 2 did is undone. -/
lemma wp_pipeData (hd₀ : d₀ < 32) (hd₁ : d₁ < 32) (h₀ : s.entry (fdPage d₀) = some (pipeMapping p₀))
    (h₁ : s.entry (fdPage d₁) = some (pipeMapping p₁)) (hfree : s.entry (dataPage d₀) = none) :
    wp (pipeData (index2fd (BitVec.ofNat 32 d₀)) (index2fd (BitVec.ofNat 32 d₁))) s
      (fun pfd s' => pfd = (BitVec.ofNat 32 d₀, BitVec.ofNat 32 d₁) ∧ ∃ p, s.grants 0 = some p ∧
        (s' = s.pipeSet d₀ d₁ p₀ p₁ p ∨ s' = (s.pipeSet d₀ d₁ p₀ p₁ p).advance))
      (fun r s' => r = -E_NO_MEM ∧ s'.env = s.env ∧ s'.spaces = s.spaces ∧
        ∃ k < 2, s.grants k = none)
      fun _ => False := by
  unfold pipeData
  rw [wp_bind, wp_syscallMemAlloc (data_legal hd₀), pn_data hd₀]
  refine ⟨fun hnone => ⟨rfl, rfl, rfl, 0, by decide, hnone⟩, fun p hp => ?_⟩
  set t := (s.advance.zeroPage p).setEntry (dataPage d₀)
    (some ⟨p, givenFlags (PTE_W ||| PTE_LIBRARY)⟩)
    with ht
  have hm : t.entry (pn (fd2data (index2fd (BitVec.ofNat 32 d₀)))) = some (pipeMapping p) := by
    rw [pn_data hd₀]
    exact Process.entry_setEntry_self
  have hfd : ∀ d < 32, (s.pipeMapped d₀ d₁ p).entry (fdPage d) = s.entry (fdPage d) := by
    intro d hd
    have hne : ∀ e, fdPage d ≠ dataPage e := fun e => (dataPage_ne_fdPage hd 0).symm
    rw [Process.pipeMapped, Process.entry_setEntry_of_ne (hne d₁),
      Process.entry_setEntry_of_ne (hne d₀)]
    rfl
  have h₀' := (hfd d₀ hd₀).trans h₀
  have h₁' := (hfd d₁ hd₁).trans h₁
  -- step 3, with or without a page taken for a page table
  have hset : ∀ u, u = s.pipeMapped d₀ d₁ p ∨ u = (s.pipeMapped d₀ d₁ p).advance →
      wp (do
        storeWord (fdDevId (index2fd (BitVec.ofNat 32 d₀))) 112#32
        storeWord (fdOmode (index2fd (BitVec.ofNat 32 d₀))) O_RDONLY
        storeWord (fdDevId (index2fd (BitVec.ofNat 32 d₁))) 112#32
        storeWord (fdOmode (index2fd (BitVec.ofNat 32 d₁))) O_WRONLY
        pure (fd2num (index2fd (BitVec.ofNat 32 d₀)), fd2num (index2fd (BitVec.ofNat 32 d₁)))) u
      (fun pfd s' => pfd = (BitVec.ofNat 32 d₀, BitVec.ofNat 32 d₁) ∧ ∃ p, s.grants 0 = some p ∧
        (s' = s.pipeSet d₀ d₁ p₀ p₁ p ∨ s' = (s.pipeSet d₀ d₁ p₀ p₁ p).advance))
      (fun r s' => r = -E_NO_MEM ∧ s'.env = s.env ∧ s'.spaces = s.spaces ∧
        ∃ k < 2, s.grants k = none)
      fun _ => False := by
    intro u hu
    have hu₀ : u.entry (fdPage d₀) = some (pipeMapping p₀) := by
      rcases hu with rfl | rfl <;> exact h₀'
    have hu₁ : u.entry (fdPage d₁) = some (pipeMapping p₁) := by
      rcases hu with rfl | rfl <;> exact h₁'
    rw [wp_bind, fdDevId_eq, wp_storeField hd₀ (by decide) hu₀, wp_bind, fdOmode]
    refine (wp_storeField (p := p₀) hd₀ (by decide : 8 < 4096) (by exact hu₀)).mpr ?_
    rw [wp_bind, fdDevId_eq]
    refine (wp_storeField (p := p₁) hd₁ (by decide : 0 < 4096) (by exact hu₁)).mpr ?_
    rw [wp_bind, fdOmode]
    refine (wp_storeField (p := p₁) hd₁ (by decide : 8 < 4096) (by exact hu₁)).mpr ?_
    rw [wp_pure, fd2num_index2fd (fd_lt hd₀), fd2num_index2fd (fd_lt hd₁)]
    refine ⟨rfl, p, hp, ?_⟩
    rcases hu with rfl | rfl
    · exact .inl rfl
    · exact .inr rfl
  rw [wp_bind, wp_onError, wp_syscallMemMap (data_legal hd₀) (data_legal hd₁) hm, pn_data hd₁]
  refine ⟨fun _ => hset _ (.inl rfl), fun _ => ⟨fun hnone => ?_, fun _ _ => hset _ (.inr rfl)⟩⟩
  rw [wp_fdClose (data_legal hd₀), pn_data hd₀]
  exact ⟨rfl, rfl, Process.setEntry_none_spaces (s := s) rfl hfree rfl, 1, by decide, hnone⟩

/-- The state in which `pipe` has mapped the two `struct Fd` pages. -/
def Process.fdsMapped (s : Process) (d₀ d₁ p₀ p₁ : ℕ) : Process :=
  ((((s.advance.zeroPage p₀).setEntry (fdPage d₀) (some (pipeMapping p₀))).advance.zeroPage
    p₁).setEntry (fdPage d₁) (some (pipeMapping p₁)))

/-- What `pipe` has made, if nothing failed. -/
lemma piped_pipeSet (hd₀ : d₀ < 32) (hd₁ : d₁ < 32) (hne : d₀ ≠ d₁)
    (h₀ : s.entry (fdPage d₀) = none)
    (h₁ : s.entry (fdPage d₁) = none) (hclear : s.WindowsClear) (hfresh : s.Fresh) {p₂ : ℕ}
    (hp₀ : s.grants 0 = some p₀) (hp₁ : s.grants 1 = some p₁) (hp₂ : s.grants 2 = some p₂) :
    Piped s ((s.fdsMapped d₀ d₁ p₀ p₁).pipeSet d₀ d₁ p₀ p₁ p₂) d₀ d₁ p₀ p₁ p₂ := by
  have h01 : p₀ ≠ p₁ := fun h => absurd (hfresh.once 0 1 p₀ hp₀ (h ▸ hp₁)) (by decide)
  have h02 : p₀ ≠ p₂ := fun h => absurd (hfresh.once 0 2 p₀ hp₀ (h ▸ hp₂)) (by decide)
  have h12 : p₁ ≠ p₂ := fun h => absurd (hfresh.once 1 2 p₁ hp₁ (h ▸ hp₂)) (by decide)
  have hspaces : ((s.fdsMapped d₀ d₁ p₀ p₁).pipeSet d₀ d₁ p₀ p₁ p₂).spaces =
      Function.update (Function.update (Function.update (Function.update s.spaces (s.env, fdPage d₀)
        (some (pipeMapping p₀))) (s.env, fdPage d₁) (some (pipeMapping p₁))) (s.env, dataPage d₀)
        (some (pipeMapping p₂))) (s.env, dataPage d₁) (some (pipeMapping p₂)) := rfl
  have hentry : ∀ q, ((s.fdsMapped d₀ d₁ p₀ p₁).pipeSet d₀ d₁ p₀ p₁ p₂).entry q =
      if q = dataPage d₁ then some (pipeMapping p₂) else if q = dataPage d₀ then some
        (pipeMapping p₂)
      else if q = fdPage d₁ then some (pipeMapping p₁)
      else if q = fdPage d₀ then some (pipeMapping p₀) else s.entry q := by
    intro q
    simp only [Process.pipeSet, Process.pipeMapped, Process.fdsMapped, Process.setWord_entry,
      Process.entry_setEntry, Process.advance_entry, Process.zeroPage_entry]
  have hfd : ∀ d e, d < 32 → fdPage d ≠ dataPage e := fun d e hd => (dataPage_ne_fdPage hd 0).symm
  exact {
    ne := hne
    unused₀ := h₀
    unused₁ := h₁
    fresh := hfresh.unmapped 2 p₂ hp₂
    zero := by
      intro i
      simp [Process.pipeSet, Process.pipeMapped, Process.setWord, Process.zeroPage,
        h02.symm, h12.symm]
    fd₀ := by
      rw [hentry, if_neg (hfd d₀ d₁ hd₀), if_neg (hfd d₀ d₀ hd₀),
        if_neg (fdPage_inj hne), if_pos rfl]
    fd₁ := by
      rw [hentry, if_neg (hfd d₁ d₁ hd₁), if_neg (hfd d₁ d₀ hd₁), if_pos rfl]
    window := by
      intro d hd i hi
      have hw : ∀ e, dataPage d + i ≠ dataPage e ∨ i = 0 := by
        unfold dataPage
        omega
      by_cases h0 : i = 0
      · subst h0
        rw [if_pos rfl, hentry]
        rcases hd with rfl | rfl
        · by_cases h : dataPage d + 0 = dataPage d₁
          · rw [if_pos h]
          · rw [if_neg h, if_pos (Nat.add_zero _)]
        · rw [if_pos (Nat.add_zero _)]
      · have hold : s.entry (dataPage d + i) = none := by
          rcases hd with rfl | rfl
          · exact hclear _ hd₀ h₀ i hi
          · exact hclear _ hd₁ h₁ i hi
        rw [if_neg h0, hentry, if_neg ((hw d₁).resolve_right h0), if_neg ((hw d₀).resolve_right h0),
          if_neg (dataPage_ne_fdPage hd₁ i), if_neg (dataPage_ne_fdPage hd₀ i), hold]
    dev₀ := by
      simp [Process.pipeSet, Process.setWord, h01]
    dev₁ := by
      simp [Process.pipeSet, Process.setWord]
    omode₀ := by
      simp [Process.pipeSet, Process.setWord, h01]
    omode₁ := by
      simp [Process.pipeSet, Process.setWord]
    frame := by
      intro x hx₀ hx₁ hx₂ hx₃
      rw [hspaces, Function.update_of_ne hx₃, Function.update_of_ne hx₂, Function.update_of_ne hx₁,
        Function.update_of_ne hx₀] }

lemma Piped.advance {s' : Process} {p₂ : ℕ} (h : Piped s s' d₀ d₁ p₀ p₁ p₂) :
    Piped s s'.advance d₀ d₁ p₀ p₁ p₂ :=
  ⟨h.ne, h.unused₀, h.unused₁, h.fresh, h.zero, h.fd₀, h.fd₁, h.window, h.dev₀, h.dev₁, h.omode₀,
    h.omode₁, h.frame⟩

/-- The codes that `pipe` fails with are negative. -/
lemma failed_neg {e : Word} (h : e = -E_MAX_OPEN ∨ e = -E_NO_MEM) : e.msb = true := by
  rcases h with rfl | rfl <;> decide

/-- **Making a pipe is all or nothing.**  Whatever `page_alloc` answers and however many numbers are
in use, `pipe` comes back.  If it succeeds, there is a pipe between two numbers that were not in
use; if it fails, with a negative number, all mappings are as they were, and there was no room for a
pipe. -/
theorem pipe_all_or_nothing (s : Process) (hclear : s.WindowsClear) (hfresh : s.Fresh) :
    wp pipe s
      (fun pfd s' => ∃ d₀ < MAXFD, ∃ d₁ < MAXFD, pfd = (BitVec.ofNat 32 d₀, BitVec.ofNat 32 d₁) ∧
        ∃ p₀ p₁ p₂, Piped s s' d₀ d₁ p₀ p₁ p₂)
      (fun r s' => r.msb = true ∧ s'.spaces = s.spaces ∧ s.PipeShort) fun _ => False := by
  unfold pipe
  rw [wp_bind]
  apply (wp_fdAlloc s).mono _ _ fun _ hp => hp
  · intro fd0 t h
    obtain ⟨rfl, d₀, hd₀, rfl, hfree₀, -⟩ := h
    have hd₀ : d₀ < 32 := by omega
    rw [wp_bind, wp_syscallMemAlloc (fd_legal hd₀), pn_fd hd₀]
    refine ⟨fun hnone => ⟨failed_neg (.inr rfl), rfl, .inr ⟨0, by decide, hnone⟩⟩, fun p₀ hp₀ => ?_⟩
    set s₁ := (t.advance.zeroPage p₀).setEntry (fdPage d₀) (some (pipeMapping p₀)) with hs₁
    -- whatever undoes the first page gives back the mappings of the start
    have hundo : ∀ (r : Word) (u : Process), (r = -E_MAX_OPEN ∨ r = -E_NO_MEM) → u.env = t.env →
        u.spaces = s₁.spaces → t.PipeShort → wp (fdClose (index2fd (BitVec.ofNat 32 d₀))) u
          (fun _ s' => r.msb = true ∧ s'.spaces = t.spaces ∧ t.PipeShort)
          (fun r s' => r.msb = true ∧ s'.spaces = t.spaces ∧ t.PipeShort) fun _ => False := by
      intro r u hr henv hu hshort
      rw [wp_fdClose (fd_legal hd₀), pn_fd hd₀]
      exact ⟨failed_neg hr, Process.setEntry_none_spaces henv hfree₀ hu, hshort⟩
    change wp (onError _ _) s₁ _ _ _
    rw [wp_onError, wp_bind]
    apply (wp_fdAlloc s₁).mono _ _ fun _ hp => hp
    · intro fd1 u h
      obtain ⟨rfl, d₁, hd₁, rfl, hfree₁, -⟩ := h
      have hd₁ : d₁ < 32 := by omega
      have hne : d₀ ≠ d₁ := by
        intro h
        rw [← h, hs₁, Process.entry_setEntry_self] at hfree₁
        exact absurd hfree₁ nofun
      have hunused₁ : t.entry (fdPage d₁) = none := by
        rw [← hfree₁, hs₁, Process.entry_setEntry_of_ne (fdPage_inj hne.symm)]
        rfl
      rw [wp_bind, wp_syscallMemAlloc (fd_legal hd₁), pn_fd hd₁]
      refine ⟨fun hnone => hundo _ _ (.inr rfl) rfl rfl (.inr ⟨1, by decide, hnone⟩),
        fun p₁ hp₁ => ?_⟩
      have hfds : (s₁.advance.zeroPage p₁).setEntry (fdPage d₁)
          (some ⟨p₁, givenFlags (PTE_W ||| PTE_LIBRARY)⟩) = t.fdsMapped d₀ d₁ p₀ p₁ := rfl
      have h₁ : (t.fdsMapped d₀ d₁ p₀ p₁).entry (fdPage d₁) = some (pipeMapping p₁) :=
        Process.entry_setEntry_self
      have h₀ : (t.fdsMapped d₀ d₁ p₀ p₁).entry (fdPage d₀) = some (pipeMapping p₀) := by
        rw [Process.fdsMapped, Process.entry_setEntry_of_ne (fdPage_inj hne),
          Process.zeroPage_entry,
          Process.advance_entry, Process.entry_setEntry_self]
      have hdata : (t.fdsMapped d₀ d₁ p₀ p₁).entry (dataPage d₀) = none := by
        have hd : ∀ e < 32, dataPage d₀ ≠ fdPage e := fun e he => dataPage_ne_fdPage he 0
        rw [Process.fdsMapped, Process.entry_setEntry_of_ne (hd d₁ hd₁), Process.zeroPage_entry,
          Process.advance_entry, Process.entry_setEntry_of_ne (hd d₀ hd₀)]
        exact hclear d₀ hd₀ hfree₀ 0 (by decide)
      rw [hfds, wp_onError]
      apply (wp_pipeData hd₀ hd₁ h₀ h₁ hdata).mono _ _ fun _ hp => hp
      · intro pfd s' h
        obtain ⟨rfl, p₂, hp₂, hs'⟩ := h
        have hpiped := piped_pipeSet hd₀ hd₁ hne hfree₀ hunused₁ hclear hfresh hp₀ hp₁ hp₂
        refine ⟨d₀, hd₀, d₁, hd₁, rfl, p₀, p₁, p₂, ?_⟩
        rcases hs' with rfl | rfl
        · exact hpiped
        · exact hpiped.advance
      · intro r s' h
        obtain ⟨rfl, henv, hspaces, k, hk, hnone⟩ := h
        rw [wp_fdClose (fd_legal hd₁), pn_fd hd₁]
        exact hundo _ _ (.inr rfl) henv (Process.setEntry_none_spaces henv hfree₁ hspaces)
          (.inr ⟨k + 2, by omega, hnone⟩)
    · intro r u h
      obtain ⟨rfl, rfl, hall⟩ := h
      refine hundo _ _ (.inl rfl) rfl rfl (.inl fun d hd d' hd' hnone hnone' => ?_)
      -- every number but the first of the two is in use
      have honly : ∀ e < MAXFD - 1, t.entry (fdPage e) = none → e = d₀ := by
        intro e he hnone
        by_contra hne
        have hsome := hall e he
        rw [hs₁, Process.entry_setEntry_of_ne (fdPage_inj hne), Process.zeroPage_entry,
          Process.advance_entry, hnone] at hsome
        exact absurd hsome (by simp)
      rw [honly d hd hnone, honly d' hd' hnone']
  · intro r t h
    obtain ⟨rfl, rfl, hall⟩ := h
    refine ⟨failed_neg (.inl rfl), rfl, .inl fun d hd d' hd' hnone _ => ?_⟩
    have hsome := hall d hd
    rw [hnone] at hsome
    exact absurd hsome (by simp)

/-- A process that has nothing open and gets the pages 100, 101, … has room for a pipe. -/
theorem pipe_all_or_nothing_empty :
    wp pipe (Process.empty fun n => some (100 + n))
      (fun pfd s' => ∃ d₀ < MAXFD, ∃ d₁ < MAXFD, pfd = (BitVec.ofNat 32 d₀, BitVec.ofNat 32 d₁) ∧
        ∃ p₀ p₁ p₂, Piped (Process.empty fun n => some (100 + n)) s' d₀ d₁ p₀ p₁ p₂)
      (fun _ _ => False) fun _ => False := by
  have hfresh : (Process.empty fun n => some (100 + n)).Fresh := by
    refine ⟨fun _ _ _ _ => nofun, fun n n' p h h' => ?_⟩
    have h := Option.some.inj h
    have h' := Option.some.inj h'
    omega
  refine (pipe_all_or_nothing (Process.empty fun n => some (100 + n))
    (fun _ _ _ _ _ => rfl) hfresh).mono
    (fun _ _ h => h) (fun _ _ h => ?_) fun _ h => h
  obtain ⟨-, -, hused | ⟨k, -, hnone⟩⟩ := h
  · exact absurd (hused 0 (by decide) 1 (by decide) rfl rfl) (by decide)
  · exact absurd hnone nofun

end

end MosRv.Fd
