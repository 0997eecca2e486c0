import MosRv.User.PipeEnds

/-!
# When a pipe looks closed

`_pipe_is_closed` is right as long as the mappings of the page of the pipe are at least as many as
those of both `struct Fd` pages together (`Inv.refs_le`).  So it is right (`pipe_closed_sound`)
unless it is called while a loop of `fork` or `spawn` stands between the two pages of a descriptor;
`pipe_closed_early` is a run in which it is called then.
-/

namespace MosRv.PipeEnds

open Reach RefGraph

/-! ## Counting mappings -/

section Count

variable {P : Setup} {s : State}

/-- The window that belongs to a `struct Fd` page. -/
def windowOf (q : ℕ × ℕ) : ℕ × ℕ := (q.1, dataPage (q.2 - fdPage 0))

lemma windowOf_fdPage (x d : ℕ) : windowOf (x, fdPage d) = (x, dataPage d) := by
  simp [windowOf, fdPage]

lemma target_eq_some {S : Spaces} {q : ℕ × ℕ} {f : ℕ} :
    S.target q = some f ↔ ∃ m, S q = some m ∧ m.page = f := by
  rw [Spaces.target, Option.map_eq_some_iff]

/-- Outside the loops, every `struct Fd` page of the pipe comes with its window. -/
lemma Inv.window (h : Inv P s) (hb : ¬ s.Between P) {x v : ℕ} (hv : HasFd P s.spaces x v) :
    ∃ d < MAXFD, v = fdPage d ∧ HasPipe P s.spaces x (dataPage d) := by
  obtain ⟨d, hd, rfl, hp | ⟨y, w, hy, hlo, hhi, hf, -⟩⟩ := h.fd x v hv
  · exact ⟨d, hd, rfl, hp⟩
  · exact absurd ⟨y, x, w, d, hy, hd, hlo, hhi, hf⟩ hb

/-- **The page of the pipe has at least as many mappings as both `struct Fd` pages together.** -/
lemma Inv.refs_le (h : Inv P s) (hb : ¬ s.Between P) :
    s.spaces.refs P.rdFd + s.spaces.refs P.wrFd ≤ s.spaces.refs P.page := by
  have hdisj : Disjoint (Spaces.slots.filter fun q => s.spaces.target q = some P.rdFd)
      (Spaces.slots.filter fun q => s.spaces.target q = some P.wrFd) := by
    rw [Finset.disjoint_filter]
    intro q _ hr hw
    rw [hr, Option.some.injEq] at hw
    exact P.fd_ne hw
  have hfd : ∀ q ∈ (Spaces.slots.filter fun q => s.spaces.target q = some P.rdFd) ∪
      Spaces.slots.filter fun q => s.spaces.target q = some P.wrFd,
      ∃ d < MAXFD, q.2 = fdPage d ∧ HasPipe P s.spaces q.1 (dataPage d) := by
    intro q hq
    rw [Finset.mem_union, Finset.mem_filter, Finset.mem_filter, target_eq_some,
      target_eq_some] at hq
    obtain ⟨-, m, hm, hp⟩ | ⟨-, m, hm, hp⟩ := hq
    · exact h.window hb ⟨m, hm, .inl hp⟩
    · exact h.window hb ⟨m, hm, .inr hp⟩
  rw [Spaces.refs, Spaces.refs, Spaces.refs, RefGraph.refs, RefGraph.refs, RefGraph.refs,
    ← Finset.card_union_of_disjoint hdisj]
  apply Finset.card_le_card_of_injOn windowOf
  · rintro ⟨x, v⟩ hq
    obtain ⟨d, -, rfl, m, hm, hp⟩ := hfd _ hq
    rw [windowOf_fdPage, Finset.mem_coe, Finset.mem_filter, target_eq_some]
    have hslot := h.slots x (dataPage d) (by simp [hm])
    exact ⟨Spaces.mem_slots.mpr hslot, m, hm, hp⟩
  · rintro ⟨x, v⟩ hq ⟨x', v'⟩ hq' heq
    obtain ⟨d, -, rfl, -⟩ := hfd _ hq
    obtain ⟨d', -, rfl, -⟩ := hfd _ hq'
    rw [windowOf_fdPage, windowOf_fdPage, Prod.mk.injEq] at heq
    have hd : d = d' := (dataPage_add_inj (i := 0) (by decide) heq.2).2
    rw [heq.1, hd]

/-- The page of the pipe is mapped in windows only, so that its count does not wrap. -/
lemma Inv.refs_lt (h : Inv P s) : s.spaces.refs P.page < 2 ^ 16 := by
  have hwindow : ∀ q, s.spaces.target q = some P.page →
      ∃ x d, x < NENV ∧ d < MAXFD ∧ q = (x, dataPage d) := by
    rintro ⟨x, v⟩ hq
    obtain ⟨m, hm, hp⟩ := target_eq_some.mp hq
    obtain ⟨d, hd, rfl⟩ := h.pipe x v ⟨m, hm, hp⟩
    exact ⟨x, d, (h.slots x (dataPage d) (by simp [hm])).1, hd, rfl⟩
  have hsub : ∀ a b : ℕ, (∀ q, s.spaces.target q = some P.page →
      ∃ x d, x < a ∧ d < b ∧ q = (x, dataPage d)) → s.spaces.refs P.page ≤ a * b := by
    intro a b hab
    have hcard : (Spaces.slots.filter fun q => s.spaces.target q = some P.page) ⊆
        (Finset.range a ×ˢ Finset.range b).image fun q => (q.1, dataPage q.2) := by
      intro q hq
      obtain ⟨x, d, hx, hd, rfl⟩ := hab q (Finset.mem_filter.mp hq).2
      exact Finset.mem_image.mpr ⟨(x, d), Finset.mem_product.mpr ⟨Finset.mem_range.mpr hx,
        Finset.mem_range.mpr hd⟩, rfl⟩
    rw [Spaces.refs, RefGraph.refs]
    refine (Finset.card_le_card hcard).trans (Finset.card_image_le.trans ?_)
    rw [Finset.card_product, Finset.card_range, Finset.card_range]
  exact (hsub NENV MAXFD hwindow).trans_lt (by decide)

lemma Inv.not_mapped (h : Inv P s) {f : ℕ} (hz : s.spaces.refs f = 0) {y v : ℕ} {m : Mapping}
    (hm : s.spaces (y, v) = some m) : m.page ≠ f := by
  intro hf
  have hslot := h.slots y v (by simp [hm])
  exact (refs_eq_zero_iff.mp hz) (y, v) (Spaces.mem_slots.mpr hslot)
    (target_eq_some.mpr ⟨m, hm, hf⟩)

lemma Inv.closedSound (h : Inv P s) (hb : ¬ s.Between P) : s.ClosedSound P := by
  intro x fdnum fd other _ hlt hfd hm hclosed y v m' hm'
  obtain ⟨m, hm, rfl⟩ := hm
  rw [pn_index2fd hlt] at hm
  have hisFd : P.IsFd m.page := hfd.imp (fun h => h.1) fun h => h.1
  obtain ⟨d, -, heq, mp, hmp, hpage⟩ := h.window hb ⟨m, hm, hisFd⟩
  rw [← fdPage_inj heq] at hmp
  rw [State.pipeIsClosed, decide_eq_true_iff, Spaces.pageref, Spaces.pageref, pn_index2fd hlt,
    pn_fd2data hlt, hm, hmp] at hclosed
  have hcount := congrArg BitVec.toNat hclosed
  rw [BitVec.toNat_ofNat, BitVec.toNat_ofNat, hpage] at hcount
  have hle := h.refs_le hb
  have hpipe := h.refs_lt
  rw [Nat.mod_eq_of_lt hpipe] at hcount
  apply h.not_mapped _ hm'
  rcases hfd with ⟨hr, rfl⟩ | ⟨hw, rfl⟩
  · rw [hr, Nat.mod_eq_of_lt (by omega)] at hcount
    omega
  · rw [hw, Nat.mod_eq_of_lt (by omega)] at hcount
    omega

end Count

/-! ## Runs -/

/-- The address spaces after `pipe` has given process `x` the descriptors `d₀` and `d₁`. -/
def pipeCall (P : Setup) (S : Spaces) (x : ℕ) (d₀ d₁ : Word) : Option Spaces :=
  let S₁ := S.memAlloc x (index2fd d₀) P.rdFd (PTE_W ||| PTE_LIBRARY)
  let S₂ := S₁.memAlloc x (index2fd d₁) P.wrFd (PTE_W ||| PTE_LIBRARY)
  let S₃ := S₂.memAlloc x (fd2data (index2fd d₀)) P.page (PTE_W ||| PTE_LIBRARY)
  S₃.memMap x (fd2data (index2fd d₀)) x (fd2data (index2fd d₁)) (PTE_W ||| PTE_LIBRARY)

/-- The states in which a process has just made the pipe, from pages that were free and on two
descriptors that were not in use. -/
structure Created (P : Setup) (s : State) (S : Spaces) (x : ℕ) (d₀ d₁ : Word) : Prop where
  x_lt : x < NENV
  d₀_lt : d₀ < 32
  d₁_lt : d₁ < 32
  ne : d₀ ≠ d₁
  slots : ∀ z v, S (z, v) ≠ none → z < NENV ∧ v < 2 ^ 20
  unused : ∀ q m, S q = some m → m.page ≠ P.rdFd ∧ m.page ≠ P.wrFd ∧ m.page ≠ P.page
  call : pipeCall P S x d₀ d₁ = some s.spaces
  pc : ∀ z, s.pc z = .user ∨ s.pc z = .free

/-- The states of the runs that begin with a new pipe and whose steps meet `C`. -/
def Reaches (P : Setup) (C : State → Act → Prop) : State → Prop :=
  Reachable (fun s => ∃ S x d₀ d₁, Created P s S x d₀ d₁) (When C (Step P))

/-- The flags of the pages that `pipe` maps. -/
def pipePerm : Word := pteBits (entryFlags ((PTE_W ||| PTE_LIBRARY) ||| PTE_U))

lemma library_pipePerm : HasFlag pipePerm PTE_LIBRARY := by decide

lemma legal_fd {d : Word} (h : d < 32) : isIllegalVa (index2fd d) = false := by
  have hd := toNat_lt h
  rw [MAXFD] at hd
  exact not_illegal (by rw [index2fd_toNat h]; omega) (by rw [index2fd_toNat h]; omega)

lemma legal_data {d : Word} (h : d < 32) : isIllegalVa (fd2data (index2fd d)) = false := by
  have hd := toNat_lt h
  rw [MAXFD] at hd
  exact not_illegal (by rw [fd2data_toNat h]; omega) (by rw [fd2data_toNat h]; omega)

/-- The four mappings that `pipe` makes. -/
lemma pipeCall_eq (P : Setup) (S : Spaces) (x : ℕ) {d₀ d₁ : Word} (h₀ : d₀ < 32) (h₁ : d₁ < 32) :
    pipeCall P S x d₀ d₁ = some
    (Function.update (Function.update (Function.update (Function.update S
      (x, fdPage d₀.toNat) (some ⟨P.rdFd, pipePerm⟩)) (x, fdPage d₁.toNat)
        (some ⟨P.wrFd, pipePerm⟩))
      (x, dataPage d₀.toNat) (some ⟨P.page, pipePerm⟩))
      (x, dataPage d₁.toNat) (some ⟨P.page, pipePerm⟩)) := by
  simp only [pipeCall, Spaces.memAlloc, Spaces.memMap, legal_fd h₀, legal_fd h₁, legal_data h₀,
    legal_data h₁, pn_index2fd h₀, pn_index2fd h₁, pn_fd2data h₀, pn_fd2data h₁,
    Bool.false_eq_true, or_self, if_false, Function.update_self, Option.map_some, pipePerm]

lemma Created.inv {P : Setup} {s : State} {S : Spaces} {x : ℕ} {d₀ d₁ : Word}
    (h : Created P s S x d₀ d₁) : Inv P s := by
  have hcall := h.call
  rw [pipeCall_eq P S x h.d₀_lt h.d₁_lt, Option.some.injEq] at hcall
  have hd₀ := toNat_lt h.d₀_lt
  have hd₁ := toNat_lt h.d₁_lt
  have hcopy : ∀ z, (s.pc z).copying = none := by
    intro z
    rcases h.pc z with hz | hz <;> rw [hz] <;> rfl
  -- what is mapped anywhere: the pages of the pipe at their places, or what was mapped before
  have hcases : ∀ z v m, s.spaces (z, v) = some m →
      (z = x ∧ v = dataPage d₁.toNat ∧ m = ⟨P.page, pipePerm⟩) ∨
      (z = x ∧ v = dataPage d₀.toNat ∧ m = ⟨P.page, pipePerm⟩) ∨
      (z = x ∧ v = fdPage d₁.toNat ∧ m = ⟨P.wrFd, pipePerm⟩) ∨
      (z = x ∧ v = fdPage d₀.toNat ∧ m = ⟨P.rdFd, pipePerm⟩) ∨ S (z, v) = some m := by
    intro z v m hm
    rw [← hcall] at hm
    simp only [Function.update_apply, Prod.mk.injEq] at hm
    split_ifs at hm with h₁ h₂ h₃ h₄
    · exact .inl ⟨h₁.1, h₁.2, (Option.some.inj hm).symm⟩
    · exact .inr (.inl ⟨h₂.1, h₂.2, (Option.some.inj hm).symm⟩)
    · exact .inr (.inr (.inl ⟨h₃.1, h₃.2, (Option.some.inj hm).symm⟩))
    · exact .inr (.inr (.inr (.inl ⟨h₄.1, h₄.2, (Option.some.inj hm).symm⟩)))
    · exact .inr (.inr (.inr (.inr hm)))
  have hpipe₁ : HasPipe P s.spaces x (dataPage d₁.toNat) := by
    rw [← hcall, hasPipe_update, if_pos ⟨rfl, rfl⟩]
  have hpipe₀ : HasPipe P s.spaces x (dataPage d₀.toNat) := by
    rw [← hcall, hasPipe_update]
    split
    · rfl
    · rw [hasPipe_update, if_pos ⟨rfl, rfl⟩]
  refine ⟨?_, ?_, ?_, ?_, ?_, ?_, ?_⟩
  · rintro z v ⟨m, hm, hf⟩
    rcases hcases z v m hm with ⟨-, -, rfl⟩ | ⟨-, -, rfl⟩ | ⟨rfl, rfl, -⟩ | ⟨rfl, rfl, -⟩ | hS
    · exact absurd hf (by simp [Setup.IsFd, P.rd_ne.symm, P.wr_ne.symm])
    · exact absurd hf (by simp [Setup.IsFd, P.rd_ne.symm, P.wr_ne.symm])
    · exact ⟨_, hd₁, rfl, .inl hpipe₁⟩
    · exact ⟨_, hd₀, rfl, .inl hpipe₀⟩
    · exact (hf.elim (h.unused _ m hS).1 (h.unused _ m hS).2.1).elim
  · rintro z v ⟨m, hm, hp⟩
    rcases hcases z v m hm with ⟨-, rfl, -⟩ | ⟨-, rfl, -⟩ | ⟨-, -, rfl⟩ | ⟨-, -, rfl⟩ | hS
    · exact ⟨_, hd₁, rfl⟩
    · exact ⟨_, hd₀, rfl⟩
    · exact absurd hp P.wr_ne
    · exact absurd hp P.rd_ne
    · exact absurd hp (h.unused _ m hS).2.2
  · intro z v m hm hpage
    rcases hcases z v m hm with ⟨-, -, rfl⟩ | ⟨-, -, rfl⟩ | ⟨-, -, rfl⟩ | ⟨-, -, rfl⟩ | hS
    · exact library_pipePerm
    · exact library_pipePerm
    · exact library_pipePerm
    · exact library_pipePerm
    · have hun := h.unused _ m hS
      exact (hpage.elim (fun hf => hf.elim hun.1 hun.2.1) hun.2.2).elim
  · intro z v hv
    obtain ⟨m, hm⟩ := Option.ne_none_iff_exists'.mp hv
    rw [MAXFD] at hd₀ hd₁
    rcases hcases z v m hm with ⟨rfl, rfl, -⟩ | ⟨rfl, rfl, -⟩ | ⟨rfl, rfl, -⟩ | ⟨rfl, rfl, -⟩ | hS
    · exact ⟨h.x_lt, by rw [dataPage]; omega⟩
    · exact ⟨h.x_lt, by rw [dataPage]; omega⟩
    · exact ⟨h.x_lt, by rw [fdPage]; omega⟩
    · exact ⟨h.x_lt, by rw [fdPage]; omega⟩
    · exact h.slots z v (by simp [hS])
  · intro y c v hy
    rw [hcopy y] at hy
    cases hy
  · intro c hc
    rcases h.pc c with hz | hz <;> rw [hz] at hc <;> cases hc
  · intro z
    rcases h.pc z with hz | hz <;> rw [hz] <;> trivial

lemma Reaches.inv {P : Setup} {s : State} (h : Reaches P (Careful P) s) : Inv P s := by
  refine Reachable.invariant h ?_ ?_
  · rintro s ⟨S, x, d₀, d₁, hs⟩
    exact hs.inv
  · rintro s a s' hs ⟨hc, hstep⟩
    exact hs.step hc hstep

/-- **A pipe never looks closed while the other end is open**, in the runs of any number of
processes in which `fork` and `spawn` are not caught between the two pages of a descriptor. -/
theorem pipe_closed_sound (P : Setup) (s : State) (h : Reaches P (Careful P) s)
    (hb : ¬ s.Between P) : s.ClosedSound P :=
  h.inv.closedSound hb

/-! ### Address spaces that map pages of one pipe only -/

/-- The spaces that map, by process and page number, the pages in a list. -/
def table (L : List (ℕ × ℕ × ℕ)) : Spaces :=
  fun q => (L.find? fun e => (e.1, e.2.1) = q).map fun e => ⟨e.2.2, pipePerm⟩

lemma table_cons (L : List (ℕ × ℕ × ℕ)) (x v f : ℕ) :
    Function.update (table L) (x, v) (some ⟨f, pipePerm⟩) = table ((x, v, f) :: L) := by
  funext q
  by_cases hq : (x, v) = q
  · subst hq
    simp [table]
  · rw [Function.update_of_ne (Ne.symm hq)]
    simp [table, hq]

lemma table_filter (L : List (ℕ × ℕ × ℕ)) (x v : ℕ) :
    Function.update (table L) (x, v) none = table (L.filter fun e => (e.1, e.2.1) ≠ (x, v)) := by
  funext q
  by_cases hq : q = (x, v)
  · subst hq
    rw [Function.update_self, eq_comm, table, Option.map_eq_none_iff, List.find?_eq_none]
    intro e he
    rw [decide_eq_true_iff]
    exact of_decide_eq_true (List.mem_filter.mp he).2
  · rw [Function.update_of_ne hq]
    simp only [table, List.find?_filter]
    congr 2
    funext e
    by_cases he : (e.1, e.2.1) = q
    · simp [he, hq]
    · simp [he]

lemma table_eq_some {L : List (ℕ × ℕ × ℕ)} {q : ℕ × ℕ} {m : Mapping} (h : table L q = some m) :
    ∃ e ∈ L, (e.1, e.2.1) = q ∧ m = ⟨e.2.2, pipePerm⟩ := by
  obtain ⟨e, he, rfl⟩ := Option.map_eq_some_iff.mp h
  exact ⟨e, List.mem_of_find?_eq_some he, by simpa using List.find?_some he, rfl⟩

lemma table_of_mem {L : List (ℕ × ℕ × ℕ)} (hn : (L.map fun e => (e.1, e.2.1)).Nodup)
    {e : ℕ × ℕ × ℕ} (he : e ∈ L) : table L (e.1, e.2.1) = some ⟨e.2.2, pipePerm⟩ := by
  induction L with
  | nil => cases he
  | cons a L ih =>
      rw [List.map_cons, List.nodup_cons] at hn
      rcases List.mem_cons.mp he with rfl | he
      · simp [table]
      · have hne : (a.1, a.2.1) ≠ (e.1, e.2.1) := by
          intro heq
          exact hn.1 (heq ▸ List.mem_map_of_mem he)
        rw [← ih hn.2 he, table, table, List.find?_cons_of_neg (by simpa using hne)]

/-- The mappings of a page, read off the list. -/
lemma refs_table {L : List (ℕ × ℕ × ℕ)} (hn : (L.map fun e => (e.1, e.2.1)).Nodup)
    (hs : ∀ e ∈ L, e.1 < NENV ∧ e.2.1 < 2 ^ 20) (f : ℕ) :
    (table L).refs f = (L.filter fun e => e.2.2 = f).length := by
  have hset : (Spaces.slots.filter fun q => (table L).target q = some f) =
      ((L.filter fun e => e.2.2 = f).map fun e => (e.1, e.2.1)).toFinset := by
    ext q
    rw [Finset.mem_filter, target_eq_some, List.mem_toFinset, List.mem_map]
    constructor
    · rintro ⟨-, m, hm, rfl⟩
      obtain ⟨e, he, rfl, rfl⟩ := table_eq_some hm
      exact ⟨e, List.mem_filter.mpr ⟨he, by simp⟩, rfl⟩
    · rintro ⟨e, he, rfl⟩
      obtain ⟨he, hf⟩ := List.mem_filter.mp he
      exact ⟨Spaces.mem_slots.mpr (hs e he), _, table_of_mem hn he, by simpa using hf⟩
  rw [Spaces.refs, RefGraph.refs, hset, List.toFinset_card_of_nodup, List.length_map]
  exact hn.sublist ((List.filter_sublist).map _)

section Table

variable {P : Setup} {C : State → Act → Prop} {L : List (ℕ × ℕ × ℕ)} {pc : ℕ → Pc} {x c v : ℕ}

lemma legal_pageVa {u : ℕ} (hlo : 0x3FE ≤ u) (hhi : u < 0x7F400) :
    isIllegalVa (pageVa u) = false := by
  have hu : (pageVa u).toNat = u * 4096 := by
    rw [pageVa, BitVec.toNat_ofNat]
    omega
  exact not_illegal (by omega) (by omega)

/-- `fork` begins. -/
lemma Reaches.forkTable (h : Reaches P C ⟨table L, pc⟩) (hC : C ⟨table L, pc⟩ (.fork x c))
    (hx : pc x = .user) (hc : pc c = .free) (hlt : c < NENV) (hL : ∀ e ∈ L, e.1 ≠ c) :
    Reaches P C ⟨table L, Function.update (Function.update pc c .embryo) x (.copy .fork c 0)⟩ := by
  have hfresh : fresh (table L) c (fun _ => none) = table L := by
    funext q
    rw [fresh]
    split
    · next hq =>
        rw [eq_comm, table, Option.map_eq_none_iff, List.find?_eq_none]
        intro e he heq
        rw [decide_eq_true_iff] at heq
        exact hL e he (by rw [← hq, ← heq])
    · rfl
  have hstep := Step.fork (P := P) (s := ⟨table L, pc⟩) hx hc hlt
  rw [hfresh] at hstep
  exact Reachable.step h ⟨hC, hstep⟩

/-- `fork` gives the child the next page. -/
lemma Reaches.copyPage (u f : ℕ) (h : Reaches P C ⟨table L, pc⟩)
    (hC : C ⟨table L, pc⟩ (.run x true))
    (hpc : pc x = .copy .fork c v) (hvu : v ≤ u) (hlo : 0x3FE ≤ u) (hhi : u < 0x68000)
    (hm : table L (x, u) = some ⟨f, pipePerm⟩)
    (hskip : ∀ e ∈ L, e.1 = x → e.2.1 < v ∨ u ≤ e.2.1) :
    Reaches P C ⟨table ((c, u, f) :: L), Function.update pc x (.copy .fork c (u + 1))⟩ := by
  have hlib : HasFlag (⟨f, pipePerm⟩ : Mapping).perm PTE_LIBRARY := library_pipePerm
  have hlegal : isIllegalVa (pageVa u) = false := legal_pageVa hlo (by omega)
  have hpn : pn (pageVa u) = u := pn_pageVa (by omega)
  have hafter : Kind.fork.after ⟨f, pipePerm⟩ c u = .copy .fork c (u + 1) := by
    rw [Kind.after, if_neg fun hc => hc.2.2 hlib]
  have hmap : (table L).memMap x (pageVa u) c (pageVa u) (Kind.fork.perm ⟨f, pipePerm⟩) =
      some (table ((c, u, f) :: L)) := by
    rw [Spaces.memMap, hlegal, hpn, hm, Kind.perm_of_library hlib, ← table_cons]
    simp only [Bool.false_eq_true, or_self, if_false, Option.map_some]
    rfl
  have hlim : u < Kind.fork.limit := hhi.trans_le (by decide)
  have hstep := Step.copy (P := P) (s := ⟨table L, pc⟩) u ⟨f, pipePerm⟩ _ hpc hvu hlim
    (fun l m hvl hlu hl => ?_) hm trivial hmap
  · rw [hafter] at hstep
    exact Reachable.step h ⟨hC, hstep⟩
  · obtain ⟨e, he, heq, -⟩ := table_eq_some hl
    rw [Prod.mk.injEq] at heq
    have := hskip e he heq.1
    omega

/-- The child of `fork` has every page of its parent. -/
lemma Reaches.copiedAll (h : Reaches P C ⟨table L, pc⟩) (hC : C ⟨table L, pc⟩ (.run x true))
    (hpc : pc x = .copy .fork c v) (hskip : ∀ e ∈ L, e.1 = x → e.2.1 < v) :
    Reaches P C ⟨table L, Function.update (Function.update pc c .user) x .user⟩ := by
  refine Reachable.step h ⟨hC, Step.copied hpc fun l m hvl _ hl => ?_⟩
  obtain ⟨e, he, heq, -⟩ := table_eq_some hl
  rw [Prod.mk.injEq] at heq
  have := hskip e he heq.1
  omega

/-- A step of `close`. -/
lemma Reaches.unmapPage {u : ℕ} {va : Word} {todo : List Word} {next : Then}
    (h : Reaches P C ⟨table L, pc⟩) (hC : C ⟨table L, pc⟩ (.run x true))
    (hpc : pc x = .unmap (va :: todo) next) (hlegal : isIllegalVa va = false) (hu : pn va = u) :
    Reaches P C ⟨table (L.filter fun e => (e.1, e.2.1) ≠ (x, u)),
      Function.update pc x (.unmap todo next)⟩ := by
  have hmap : (table L).memUnmap x va = table (L.filter fun e => (e.1, e.2.1) ≠ (x, u)) := by
    rw [Spaces.memUnmap, hlegal, hu, ← table_filter]
    rfl
  have hstep := Step.unmap (P := P) (s := ⟨table L, pc⟩) hpc
  rw [hmap] at hstep
  exact Reachable.step h ⟨hC, hstep⟩

/-- The list without one page of one process. -/
def without (L : List (ℕ × ℕ × ℕ)) (x v : ℕ) : List (ℕ × ℕ × ℕ) :=
  L.filter fun e => (e.1, e.2.1) ≠ (x, v)

/-- `close` of a descriptor of the pipe. -/
lemma Reaches.closePipe {d : Word} (h : Reaches P C ⟨table L, pc⟩)
    (hpc : pc x = .user) (hd : d < 32)
    (hclose : C ⟨table L, pc⟩ (.close x d 0)) (hrun : ∀ s, C s (.run x true))
    (hfd : ∃ m, table L (x, fdPage d.toNat) = some m ∧ P.dev m.page = some .pipe) :
    Reaches P C ⟨table (without (without (without L x (fdPage d.toNat)) x (dataPage d.toNat)) x
      (fdPage d.toNat)), pc⟩ := by
  obtain ⟨m, hm, hdev⟩ := hfd
  have hplan : closePlan P (table L) x d 0 =
      [index2fd d, fd2data (index2fd d), index2fd d] := by
    rw [closePlan, fdLookup_of_lt hd, hm, Option.bind_some, hdev]
  have h₁ : Reaches P C ⟨table L, Function.update pc x
      (.unmap [index2fd d, fd2data (index2fd d), index2fd d] .ret)⟩ := by
    rw [← hplan]
    exact Reachable.step h ⟨hclose, Step.close d 0 hpc (by decide)⟩
  have h₂ := h₁.unmapPage (hrun _) (Function.update_self ..) (legal_fd hd) (pn_index2fd hd)
  have h₃ := h₂.unmapPage (hrun _) (Function.update_self ..) (legal_data hd) (pn_fd2data hd)
  have h₄ := h₃.unmapPage (hrun _) (Function.update_self ..) (legal_fd hd) (pn_index2fd hd)
  have h₅ := Reachable.step h₄ ⟨hrun _, @Step.unmapped _ _ x .ret (Function.update_self ..)⟩
  have hret : Function.update pc x .user = pc := by
    rw [← hpc, Function.update_eq_self]
  simp only [State.setPc, Then.enter, Function.update_idem, hret] at h₅
  exact h₅

end Table

/-- The counts that `_pipe_is_closed` compares, read off the list. -/
lemma pipeIsClosed_table {L : List (ℕ × ℕ × ℕ)} {pc : ℕ → Pc} {x f g : ℕ} {d : Word} (hd : d < 32)
    (hn : (L.map fun e => (e.1, e.2.1)).Nodup) (hs : ∀ e ∈ L, e.1 < NENV ∧ e.2.1 < 2 ^ 20)
    (hf : table L (x, fdPage d.toNat) = some ⟨f, pipePerm⟩)
    (hg : table L (x, dataPage d.toNat) = some ⟨g, pipePerm⟩)
    (hcount : (L.filter fun e => e.2.2 = f).length = (L.filter fun e => e.2.2 = g).length) :
    State.pipeIsClosed ⟨table L, pc⟩ x d = true := by
  rw [State.pipeIsClosed, decide_eq_true_iff, Spaces.pageref, Spaces.pageref, pn_index2fd hd,
    pn_fd2data hd]
  simp only [hf, hg]
  rw [refs_table hn hs, refs_table hn hs, hcount]

/-! ### A run -/

/-- A pipe on three pages. -/
def demoSetup : Setup where
  rdFd := 1
  wrFd := 2
  page := 3
  dev := fun _ => some .pipe
  fd_ne := by decide
  rd_ne := by decide
  wr_ne := by decide
  dev_rd := rfl
  dev_wr := rfl

/-- The pages of process 0 after `pipe`. -/
def demoPages : List (ℕ × ℕ × ℕ) :=
  [(0, dataPage 1, 3), (0, dataPage 0, 3), (0, fdPage 1, 2), (0, fdPage 0, 1)]

/-- Process 0 is alone. -/
def demoPc : ℕ → Pc := fun z => if z = 0 then .user else .free

lemma demo_init (C : State → Act → Prop) : Reaches demoSetup C ⟨table demoPages, demoPc⟩ := by
  refine .init ⟨table [], 0, 0, 1, ?_⟩
  refine ⟨by decide, by decide, by decide, by decide, fun _ _ h => absurd rfl h, ?_,
    ?_, fun z => ?_⟩
  · intro q m hm
    cases hm
  · rw [pipeCall_eq _ _ _ (by decide) (by decide)]
    simp only [table_cons]
    rfl
  · by_cases hz : z = 0
    · exact .inl (if_pos hz)
    · exact .inr (if_neg hz)

/-- The pages of process 0 and of the child that it has made. -/
def forkedPages : List (ℕ × ℕ × ℕ) :=
  [(1, dataPage 1, 3), (1, dataPage 0, 3), (1, fdPage 1, 2), (1, fdPage 0, 1)] ++ demoPages

/-- Processes 0 and 1. -/
def forkedPc : ℕ → Pc := fun z => if z < 2 then .user else .free

/-- Process 0 makes a child. -/
lemma demo_forked {C : State → Act → Prop} (hfork : ∀ s, C s (.fork 0 1))
    (hrun : ∀ s, C s (.run 0 true)) : Reaches demoSetup C ⟨table forkedPages, forkedPc⟩ := by
  have h₀ := (demo_init C).forkTable (x := 0) (c := 1) (hfork _) rfl rfl (by decide) (by decide)
  have h₁ := h₀.copyPage (x := 0) (c := 1) (v := 0) (fdPage 0) 1 (hrun _) rfl
    (by decide) (by decide)
    (by decide) rfl (by decide)
  have h₂ := h₁.copyPage (x := 0) (c := 1) (v := fdPage 0 + 1) (fdPage 1) 2 (hrun _) rfl (by decide)
    (by decide) (by decide) rfl (by decide)
  have h₃ := h₂.copyPage (x := 0) (c := 1) (v := fdPage 1 + 1) (dataPage 0) 3
    (hrun _) rfl (by decide)
    (by decide) (by decide) rfl (by decide)
  have h₄ := h₃.copyPage (x := 0) (c := 1) (v := dataPage 0 + 1) (dataPage 1) 3 (hrun _) rfl
    (by decide) (by decide) (by decide) rfl (by decide)
  have h₅ := h₄.copiedAll (x := 0) (c := 1) (v := dataPage 1 + 1) (hrun _) rfl (by decide)
  refine (congrArg (fun pc => Reaches demoSetup C ⟨table forkedPages, pc⟩)
    (funext fun z => ?_)).mpr h₅
  rcases z with _ | _ | z
  all_goals rfl

/-- Process 0 makes a child, and both close the write end; then the pipe looks closed to them. -/
theorem pipe_closed_sound_forked :
    ∃ s, Reaches demoSetup (Careful demoSetup) s ∧ ¬ s.Between demoSetup ∧
      s.pipeIsClosed 0 0 = true ∧ s.pipeIsClosed 1 0 = true ∧ s.ClosedSound demoSetup := by
  have h₀ : Reaches demoSetup (Careful demoSetup) ⟨table forkedPages, forkedPc⟩ :=
    demo_forked (fun _ => trivial) fun _ => trivial
  have h₁ := h₀.closePipe (x := 1) (d := 1) rfl (by decide) (.inl (by decide)) (fun _ => trivial)
    ⟨_, rfl, rfl⟩
  have h₂ := h₁.closePipe (x := 0) (d := 1) rfl (by decide) (.inl (by decide)) (fun _ => trivial)
    ⟨_, rfl, rfl⟩
  have hbetween : ∀ S, ¬ State.Between demoSetup ⟨S, forkedPc⟩ := by
    rintro S ⟨y, c, v, d, hy, -⟩
    change (forkedPc y).copying = some (c, v) at hy
    rw [forkedPc] at hy
    split at hy <;> cases hy
  refine ⟨_, h₂, hbetween _, ?_, ?_, pipe_closed_sound demoSetup _ h₂ (hbetween _)⟩
  · exact pipeIsClosed_table (f := 1) (g := 3) (by decide) (by decide)
      (by decide) rfl rfl (by decide)
  · exact pipeIsClosed_table (f := 1) (g := 3) (by decide) (by decide)
      (by decide) rfl rfl (by decide)

/-- Process 0 makes a child, which closes its write end, and then another one; before that one has
got the window of the read end, the first child looks whether the pipe is closed, and finds three
mappings of each page, while process 0 has the write end open. -/
theorem pipe_closed_early :
    ¬ ∀ P s, Reaches P (fun _ _ => True) s → s.ClosedSound P := by
  intro hall
  have h₀ : Reaches demoSetup (fun _ _ => True) ⟨table forkedPages, forkedPc⟩ :=
    demo_forked (fun _ => trivial) fun _ => trivial
  have h₁ := h₀.closePipe (x := 1) (d := 1) rfl (by decide) trivial (fun _ => trivial) ⟨_, rfl, rfl⟩
  have h₂ := h₁.forkTable (x := 0) (c := 2) trivial rfl rfl (by decide) (by decide)
  have h₃ := h₂.copyPage (x := 0) (c := 2) (v := 0) (fdPage 0) 1 trivial rfl (by decide) (by decide)
    (by decide) rfl (by decide)
  refine hall demoSetup _ h₃ 1 0 1 2 rfl (by decide) (.inl ⟨rfl, rfl⟩) ⟨_, rfl, rfl⟩ ?_ 0 (fdPage 1)
    ⟨2, pipePerm⟩ rfl rfl
  exact pipeIsClosed_table (f := 1) (g := 3) (by decide) (by decide) (by decide) rfl rfl (by decide)

end MosRv.PipeEnds
