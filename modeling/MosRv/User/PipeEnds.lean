import MosRv.User.PipeProcs

/-!
# What the processes keep about a pipe

Every mapping of one of the two `struct Fd` pages of a pipe comes with a mapping of the page of the
pipe in the window of the same descriptor, except in a child that a loop of `fork` or `spawn` is
giving its pages: there the window is still to come (`Pending`).  `Inv.step` is the proof that every
step keeps this, by the frame rule `Inv.frame`: a step touches the process that takes it and the
child it is making, and what is known of the others stays.
-/

namespace MosRv.PipeEnds

open Reach RefGraph

/-! ## Mappings of the pages of the pipe -/

/-- A page of the pipe: one of its `struct Fd` pages. -/
def Setup.IsFd (P : Setup) (f : ℕ) : Prop := f = P.rdFd ∨ f = P.wrFd

/-- The process maps a `struct Fd` page of the pipe at page number `v`. -/
def HasFd (P : Setup) (S : Spaces) (x v : ℕ) : Prop := ∃ m, S (x, v) = some m ∧ P.IsFd m.page

/-- The process maps the page of the pipe at page number `v`. -/
def HasPipe (P : Setup) (S : Spaces) (x v : ℕ) : Prop := ∃ m, S (x, v) = some m ∧ m.page = P.page

/-- A loop of `fork` or `spawn` stands between the two pages of a descriptor of the pipe. -/
def State.Between (P : Setup) (s : State) : Prop :=
  ∃ y c v d, (s.pc y).copying = some (c, v) ∧ d < MAXFD ∧ fdPage d < v ∧ v ≤ dataPage d ∧
    HasFd P s.spaces y (fdPage d)

/-- `_pipe_is_closed` is right: when a process calls it on an end of the pipe and it returns 1,
nobody has the other end open. -/
def State.ClosedSound (P : Setup) (s : State) : Prop :=
  ∀ x fdnum fd other, s.pc x = .user → fdnum < 32 →
    (fd = P.rdFd ∧ other = P.wrFd ∨ fd = P.wrFd ∧ other = P.rdFd) →
    (∃ m, s.spaces (x, pn (index2fd fdnum)) = some m ∧ m.page = fd) →
    s.pipeIsClosed x fdnum = true → ∀ y v m, s.spaces (y, v) = some m → m.page ≠ other

/-- The next page that `fork` gives to its child is the window of a descriptor of the pipe, whose
`struct Fd` page the child has got. -/
def State.AtWindow (P : Setup) (s : State) (x : ℕ) : Prop :=
  ∃ c v d, s.pc x = .copy .fork c v ∧ d < MAXFD ∧ v ≤ dataPage d ∧
    (∀ l, v ≤ l → l < dataPage d → s.spaces (x, l) = none) ∧ HasFd P s.spaces c (fdPage d)

/-- The comparison is not made between the two pages of a descriptor, no `syscall_mem_map` by which
`fork` is to give a window of the pipe to its child fails, `close` is called with a descriptor
number below `MAXFD` or with one at which `fd_lookup` finds nothing, and `dup` with descriptor
numbers below `MAXFD`. -/
def Careful (P : Setup) (s : State) : Act → Prop
  | .check _ _ => ¬ s.Between P
  | .run x false => ¬ s.AtWindow P x
  | .close x fdnum _ => fdnum < 32 ∨ s.spaces.fdLookup x fdnum = none
  | .dup _ old new _ => old < 32 ∧ new < 32
  | _ => True

/-- The child `x` has got the `struct Fd` page of descriptor `d` and is still to get its window. -/
def Pending (P : Setup) (s : State) (x d : ℕ) : Prop :=
  ∃ y v, (s.pc y).copying = some (x, v) ∧ fdPage d < v ∧ v ≤ dataPage d ∧
    HasFd P s.spaces y (fdPage d) ∧ HasPipe P s.spaces y (dataPage d)

/-- In a list of addresses to unmap, the window of a descriptor comes after its `struct Fd` page,
or that page is no page of the pipe. -/
def PlanOk (P : Setup) (S : Spaces) (x : ℕ) (todo : List Word) : Prop :=
  ∀ pre va post d, todo = pre ++ va :: post → d < MAXFD → pn va = dataPage d →
    HasFd P S x (fdPage d) → ∃ va' ∈ pre, pn va' = fdPage d

/-- What a process relies on inside a call. -/
def Control (P : Setup) (S : Spaces) (x : ℕ) : Pc → Prop
  | .unmap todo next => PlanOk P S x todo ∧ ∀ old new, next = .dup old new →
      old < 32 ∧ new < 32 ∧
        (HasFd P S x (fdPage new.toNat) → ∃ va ∈ todo, pn va = fdPage new.toNat)
  | .dupData old new i => old < 32 ∧ new < 32 ∧ ¬ HasFd P S x (fdPage new.toNat) ∧
      (0 < i → HasFd P S x (fdPage old.toNat) → HasPipe P S x (dataPage new.toNat))
  | .dupFd old new => old < 32 ∧ new < 32 ∧
      (HasFd P S x (fdPage old.toNat) → HasPipe P S x (dataPage new.toNat))
  | .protect _ v _ => v < 2 ^ 20 ∧ ¬ HasFd P S x v ∧ ¬ HasPipe P S x v
  | _ => True

/-- **The invariant.**  Every mapping of a `struct Fd` page of the pipe is at a descriptor whose
window maps the page of the pipe, or is about to. -/
structure Inv (P : Setup) (s : State) : Prop where
  fd : ∀ x v, HasFd P s.spaces x v →
    ∃ d < MAXFD, v = fdPage d ∧ (HasPipe P s.spaces x (dataPage d) ∨ Pending P s x d)
  pipe : ∀ x v, HasPipe P s.spaces x v → ∃ d < MAXFD, v = dataPage d
  library : ∀ x v m, s.spaces (x, v) = some m → P.IsFd m.page ∨ m.page = P.page →
    HasFlag m.perm PTE_LIBRARY
  slots : ∀ x v, s.spaces (x, v) ≠ none → x < NENV ∧ v < 2 ^ 20
  child : ∀ y c v, (s.pc y).copying = some (c, v) → s.pc c = .embryo ∧
    (∀ y' v', (s.pc y').copying = some (c, v') → y' = y) ∧
    ∀ u, HasFd P s.spaces c u ∨ HasPipe P s.spaces c u → u < v
  embryo : ∀ c, s.pc c = .embryo → c < NENV
  control : ∀ x, Control P s.spaces x (s.pc x)

/-! ### Page numbers -/

lemma fdPage_lt_dataPage {d d' : ℕ} (h : d < MAXFD) : fdPage d < dataPage d' := by
  rw [MAXFD] at h
  rw [fdPage, dataPage]
  omega

lemma dataPage_add_inj {d d' i : ℕ} (hi : i < 1024) (h : dataPage d + i = dataPage d') :
    i = 0 ∧ d = d' := by
  rw [dataPage, dataPage] at h
  omega

lemma fdPage_inj {d d' : ℕ} (h : fdPage d = fdPage d') : d = d' := by
  rw [fdPage, fdPage] at h
  omega

lemma dataPage_lt_limit {d : ℕ} (h : d < MAXFD) (kind : Kind) : dataPage d < kind.limit := by
  rw [MAXFD] at h
  have hlim : 0x68000 ≤ kind.limit := by cases kind <;> decide
  rw [dataPage]
  omega

lemma pn_pageVa {v : ℕ} (h : v < 2 ^ 20) : pn (pageVa v) = v := by
  rw [pn_eq, pageVa, BitVec.toNat_ofNat]
  omega

lemma toNat_lt {d : Word} (h : d < 32) : d.toNat < MAXFD := BitVec.lt_def.mp h

/-- An address in the page of a `struct Fd` is legal. -/
lemma legal_of_pn_fdPage {va : Word} {d : ℕ} (hd : d < MAXFD) (h : pn va = fdPage d) :
    isIllegalVa va = false := by
  rw [MAXFD] at hd
  rw [pn_eq, fdPage] at h
  exact not_illegal (by omega) (by omega)

/-! ### Flags -/

lemma hasFlag_library (w : Word) : HasFlag w PTE_LIBRARY ↔ w.getLsbD 9 = true := by
  rw [HasFlag, show PTE_LIBRARY = BitVec.twoPow 32 9 by decide]
  exact Bits.and_twoPow_ne_zero w (by decide)

/-- A mapping call passes the library flag on. -/
lemma library_mapped {w : Word} (h : HasFlag w PTE_LIBRARY) :
    HasFlag (pteBits (entryFlags (w ||| PTE_U))) PTE_LIBRARY := by
  rw [hasFlag_library] at h ⊢
  simp only [pteBits, entryFlags, BitVec.getLsbD_and, BitVec.getLsbD_or, h]
  decide

lemma library_dupPerm {m : Mapping} (h : HasFlag m.perm PTE_LIBRARY) :
    HasFlag (dupPerm m) PTE_LIBRARY := by
  rw [hasFlag_library] at h ⊢
  simp only [dupPerm, BitVec.getLsbD_and, h]
  decide

lemma Kind.perm_of_library {kind : Kind} {m : Mapping} (h : HasFlag m.perm PTE_LIBRARY) :
    kind.perm m = m.perm := by
  rw [Kind.perm, if_neg]
  exact fun hc => hc.2.2 h

/-! ### Mapping and unmapping one page -/

lemma Spaces.memMap_eq_some {S S' : Spaces} {x y : ℕ} {va va' perm : Word}
    (h : S.memMap x va y va' perm = some S') :
    ∃ m, S (x, pn va) = some m ∧
      S' = Function.update S (y, pn va')
      (some ⟨m.page, pteBits (entryFlags (perm ||| PTE_U))⟩) := by
  rw [Spaces.memMap] at h
  split at h
  · cases h
  · obtain ⟨m, hm, rfl⟩ := Option.map_eq_some_iff.mp h
    exact ⟨m, hm, rfl⟩

section Update

variable {P : Setup} {S : Spaces} {x y v w : ℕ} {m : Mapping}

lemma hasFd_update : HasFd P (Function.update S (y, w) (some m)) x v ↔
    if x = y ∧ v = w then P.IsFd m.page else HasFd P S x v := by
  by_cases h : x = y ∧ v = w
  · obtain ⟨rfl, rfl⟩ := h
    simp [HasFd]
  · have hne : (x, v) ≠ (y, w) := fun heq => h (Prod.mk.injEq .. ▸ heq)
    rw [if_neg h, HasFd, HasFd, Function.update_of_ne hne]

lemma hasPipe_update : HasPipe P (Function.update S (y, w) (some m)) x v ↔
    if x = y ∧ v = w then m.page = P.page else HasPipe P S x v := by
  by_cases h : x = y ∧ v = w
  · obtain ⟨rfl, rfl⟩ := h
    simp [HasPipe]
  · have hne : (x, v) ≠ (y, w) := fun heq => h (Prod.mk.injEq .. ▸ heq)
    rw [if_neg h, HasPipe, HasPipe, Function.update_of_ne hne]

end Update

/-! ## The invariant through a step -/

section Congr

variable {P : Setup} {S S' : Spaces} {x v : ℕ}

lemma hasFd_congr (h : S' (x, v) = S (x, v)) : HasFd P S' x v ↔ HasFd P S x v := by
  rw [HasFd, HasFd, h]

lemma hasPipe_congr (h : S' (x, v) = S (x, v)) : HasPipe P S' x v ↔ HasPipe P S x v := by
  rw [HasPipe, HasPipe, h]

/-- What a process relies on is a matter of its own address space. -/
lemma control_congr (h : ∀ v, S' (x, v) = S (x, v)) (pc : Pc) :
    Control P S' x pc ↔ Control P S x pc := by
  cases pc <;> simp only [Control, PlanOk, hasFd_congr (h _), hasPipe_congr (h _)]

end Congr

namespace Inv

variable {P : Setup} {s s' : State} {x c : ℕ}

lemma not_pending (h : Inv P s) (hx : s.pc x ≠ .embryo) (d : ℕ) : ¬ Pending P s x d := by
  rintro ⟨y, v, hy, -⟩
  exact hx (h.child y x v hy).1

/-- A runnable process maps the page of the pipe with every `struct Fd` page of it. -/
lemma fd_user (h : Inv P s) (hx : s.pc x ≠ .embryo) {v : ℕ} (hv : HasFd P s.spaces x v) :
    ∃ d < MAXFD, v = fdPage d ∧ HasPipe P s.spaces x (dataPage d) := by
  obtain ⟨d, hd, rfl, hp⟩ := h.fd x v hv
  exact ⟨d, hd, rfl, hp.resolve_right (h.not_pending hx d)⟩

lemma hasPipe_of_hasFd (h : Inv P s) (hx : s.pc x ≠ .embryo) {d : ℕ}
    (hv : HasFd P s.spaces x (fdPage d)) : HasPipe P s.spaces x (dataPage d) := by
  obtain ⟨d', -, heq, hp⟩ := h.fd_user hx hv
  rwa [fdPage_inj heq]

/-- A window maps no `struct Fd` page of the pipe. -/
lemma not_hasFd_window (h : Inv P s) (d i : ℕ) : ¬ HasFd P s.spaces x (dataPage d + i) := by
  intro hv
  obtain ⟨d', hd', heq, -⟩ := h.fd x _ hv
  have hlt := @fdPage_lt_dataPage d' d hd'
  omega

/-- **The frame rule.**  A step that touches only a process `x` and a child `c` that only `x` may be
giving its pages keeps the invariant if it keeps it for these two. -/
lemma frame (h : Inv P s) (hpc : ∀ z, z ≠ x → z ≠ c → s'.pc z = s.pc z)
    (hsp : ∀ z v, z ≠ x → z ≠ c → s'.spaces (z, v) = s.spaces (z, v)) (hx : s.pc x ≠ .embryo)
    (hbefore : ∀ z d v, z = x ∨ z = c → (s.pc z).copying = some (d, v) → d = c)
    (hafter : ∀ z d v, z = x ∨ z = c → (s'.pc z).copying = some (d, v) → d = c)
    (hmother : ∀ y v, (s.pc y).copying = some (c, v) → y = x)
    (hfd : ∀ z v, z = x ∨ z = c → HasFd P s'.spaces z v →
      ∃ d < MAXFD, v = fdPage d ∧ (HasPipe P s'.spaces z (dataPage d) ∨ Pending P s' z d))
    (hpipe : ∀ z v, z = x ∨ z = c → HasPipe P s'.spaces z v → ∃ d < MAXFD, v = dataPage d)
    (hlib : ∀ z v m, z = x ∨ z = c → s'.spaces (z, v) = some m → P.IsFd m.page ∨ m.page = P.page →
      HasFlag m.perm PTE_LIBRARY)
    (hslots : ∀ z v, z = x ∨ z = c → s'.spaces (z, v) ≠ none → z < NENV ∧ v < 2 ^ 20)
    (hchild : ∀ y v, y = x ∨ y = c → (s'.pc y).copying = some (c, v) → y = x ∧ s'.pc c = .embryo ∧
      ∀ u, HasFd P s'.spaces c u ∨ HasPipe P s'.spaces c u → u < v)
    (hembryo : ∀ z, z = x ∨ z = c → s'.pc z = .embryo → z < NENV)
    (hcontrol : ∀ z, z = x ∨ z = c → Control P s'.spaces z (s'.pc z)) : Inv P s' := by
  -- a process that is giving pages to an untouched child is untouched
  have hmotherAfter : ∀ y d v, d ≠ c → (s'.pc y).copying = some (d, v) →
      ¬ (y = x ∨ y = c) ∧ (s.pc y).copying = some (d, v) := by
    intro y d v hd hy
    have hnot : ¬ (y = x ∨ y = c) := fun hyx => hd (hafter y d v hyx hy)
    refine ⟨hnot, ?_⟩
    rw [not_or] at hnot
    rwa [hpc y hnot.1 hnot.2] at hy
  have hpending : ∀ z d, ¬ (z = x ∨ z = c) → Pending P s z d → Pending P s' z d := by
    rintro z d hz ⟨y, v, hy, hlo, hhi, hf, hp⟩
    have hyx : ¬ (y = x ∨ y = c) := fun hyx => hz (.inr (hbefore y z v hyx hy))
    rw [not_or] at hyx
    refine ⟨y, v, ?_, hlo, hhi, ?_, ?_⟩
    · rwa [hpc y hyx.1 hyx.2]
    · rwa [hasFd_congr (hsp y _ hyx.1 hyx.2)]
    · rwa [hasPipe_congr (hsp y _ hyx.1 hyx.2)]
  refine ⟨fun z v hv => ?_, fun z v hv => ?_, fun z v m hm => ?_, fun z v hv => ?_,
    fun y d v hy => ?_, fun z hz => ?_, fun z => ?_⟩
  · by_cases hz : z = x ∨ z = c
    · exact hfd z v hz hv
    · have hz' := not_or.mp hz
      rw [hasFd_congr (hsp z v hz'.1 hz'.2)] at hv
      obtain ⟨d, hd, hvd, hp⟩ := h.fd z v hv
      refine ⟨d, hd, hvd, hp.imp (fun hp => ?_) (hpending z d hz)⟩
      rwa [hasPipe_congr (hsp z _ hz'.1 hz'.2)]
  · by_cases hz : z = x ∨ z = c
    · exact hpipe z v hz hv
    · have hz' := not_or.mp hz
      rw [hasPipe_congr (hsp z v hz'.1 hz'.2)] at hv
      exact h.pipe z v hv
  · by_cases hz : z = x ∨ z = c
    · exact hlib z v m hz hm
    · have hz' := not_or.mp hz
      rw [hsp z v hz'.1 hz'.2] at hm
      exact h.library z v m hm
  · by_cases hz : z = x ∨ z = c
    · exact hslots z v hz hv
    · have hz' := not_or.mp hz
      rw [hsp z v hz'.1 hz'.2] at hv
      exact h.slots z v hv
  · by_cases hd : d = c
    · subst hd
      have hyx : y = x ∨ y = d := by
        by_contra hyx
        have hyx' := not_or.mp hyx
        rw [hpc y hyx'.1 hyx'.2] at hy
        exact hyx (.inl (hmother y v hy))
      obtain ⟨rfl, hemb, hpos⟩ := hchild y v hyx hy
      refine ⟨hemb, fun y' v' hy' => ?_, hpos⟩
      by_contra hne
      by_cases hyd : y' = d
      · rw [hyd, hemb] at hy'
        cases hy'
      · rw [hpc y' hne hyd] at hy'
        exact hne (hmother y' v' hy')
    · obtain ⟨hyx, hys⟩ := hmotherAfter y d v hd hy
      obtain ⟨hemb, huniq, hpos⟩ := h.child y d v hys
      have hdx : d ≠ x := fun heq => hx (heq ▸ hemb)
      refine ⟨(hpc d hdx hd).trans hemb, fun y' v' hy' => ?_, fun u hu => ?_⟩
      · exact huniq y' v' (hmotherAfter y' d v' hd hy').2
      · rw [hasFd_congr (hsp d u hdx hd), hasPipe_congr (hsp d u hdx hd)] at hu
        exact hpos u hu
  · by_cases hzx : z = x ∨ z = c
    · exact hembryo z hzx hz
    · have hz' := not_or.mp hzx
      rw [hpc z hz'.1 hz'.2] at hz
      exact h.embryo z hz
  · by_cases hz : z = x ∨ z = c
    · exact hcontrol z hz
    · have hz' := not_or.mp hz
      rw [hpc z hz'.1 hz'.2, control_congr fun v => hsp z v hz'.1 hz'.2]
      exact h.control z

/-- The frame rule for a process that is not giving pages to a child. -/
lemma frame_local (h : Inv P s) (hpc : ∀ z, z ≠ x → s'.pc z = s.pc z)
    (hsp : ∀ z v, z ≠ x → s'.spaces (z, v) = s.spaces (z, v)) (hx : s.pc x ≠ .embryo)
    (hcopy : (s.pc x).copying = none) (hcopy' : (s'.pc x).copying = none)
    (hx' : s'.pc x ≠ .embryo)
    (hfd : ∀ v, HasFd P s'.spaces x v →
      ∃ d < MAXFD, v = fdPage d ∧ HasPipe P s'.spaces x (dataPage d))
    (hpipe : ∀ v, HasPipe P s'.spaces x v → ∃ d < MAXFD, v = dataPage d)
    (hlib : ∀ v m, s'.spaces (x, v) = some m → P.IsFd m.page ∨ m.page = P.page →
      HasFlag m.perm PTE_LIBRARY)
    (hslots : ∀ v, s'.spaces (x, v) ≠ none → x < NENV ∧ v < 2 ^ 20)
    (hcontrol : Control P s'.spaces x (s'.pc x)) : Inv P s' := by
  refine h.frame (c := x) (fun z hz _ => hpc z hz) (fun z v hz _ => hsp z v hz) hx ?_ ?_ ?_ ?_ ?_ ?_
    ?_ ?_ ?_ ?_
  · rintro z d v (rfl | rfl) hz <;> simp [hcopy] at hz
  · rintro z d v (rfl | rfl) hz <;> simp [hcopy'] at hz
  · intro y v hy
    exact absurd (h.child y x v hy).1 hx
  · intro z v hz hv
    rw [or_self] at hz
    subst hz
    obtain ⟨d, hd, hvd, hp⟩ := hfd v hv
    exact ⟨d, hd, hvd, .inl hp⟩
  · rintro z v (rfl | rfl) hv <;> exact hpipe v hv
  · rintro z v m (rfl | rfl) hm <;> exact hlib v m hm
  · rintro z v (rfl | rfl) hv <;> exact hslots v hv
  · rintro y v (rfl | rfl) hy <;> simp [hcopy'] at hy
  · rintro z (rfl | rfl) hz <;> exact absurd hz hx'
  · rintro z (rfl | rfl) <;> exact hcontrol

/-- A process goes on without a change of its address space. -/
lemma setPc (h : Inv P s) {pc : Pc} (hx : s.pc x ≠ .embryo) (hcopy : (s.pc x).copying = none)
    (hcopy' : pc.copying = none) (hx' : pc ≠ .embryo) (hcontrol : Control P s.spaces x pc) :
    Inv P (s.setPc x pc) := by
  refine h.frame_local (fun z hz => ?_) (fun _ _ _ => rfl) hx hcopy ?_ ?_
    (fun v hv => ?_) (h.pipe x)
    (h.library x) (h.slots x) ?_
  · simp [State.setPc, hz]
  · simpa [State.setPc] using hcopy'
  · simpa [State.setPc] using hx'
  · exact h.fd_user hx hv
  · simpa [State.setPc] using hcontrol

end Inv

/-! ### `close` -/

section Plan

variable {P : Setup} {S : Spaces} {x : ℕ} {fdnum : Word} {todo : List Word} {va : Word}

/-- A list that begins with a `struct Fd` page may go on with the window of that descriptor. -/
lemma PlanOk.of_head {d : ℕ} (hd : d < MAXFD) (hva : pn va = fdPage d)
    (h : ∀ w ∈ todo, ∀ d' < MAXFD, pn w = dataPage d' → d' = d) : PlanOk P S x (va :: todo) := by
  intro pre w post d' heq hd' hw _
  cases pre with
  | nil =>
      rw [List.nil_append, List.cons.injEq] at heq
      have hlt := @fdPage_lt_dataPage d d' hd
      rw [← hva, heq.1, hw] at hlt
      exact absurd hlt (lt_irrefl _)
  | cons a pre =>
      rw [List.cons_append, List.cons.injEq] at heq
      have hmem : w ∈ todo := by
        rw [heq.2]
        exact List.mem_append_right _ List.mem_cons_self
      refine ⟨a, List.mem_cons_self, ?_⟩
      rw [← heq.1, hva, h w hmem d' hd' hw]

/-- A list may hold the window of a descriptor that is no descriptor of the pipe. -/
lemma PlanOk.of_not_hasFd (h : ∀ w ∈ todo, ∀ d < MAXFD, pn w = dataPage d →
    ¬ HasFd P S x (fdPage d)) :
    PlanOk P S x todo := by
  intro pre w post d heq hd hw hf
  have hmem : w ∈ todo := by
    rw [heq]
    exact List.mem_append_right _ List.mem_cons_self
  exact absurd hf (h w hmem d hd hw)

lemma fdLookup_of_lt (h : fdnum < 32) : S.fdLookup x fdnum = S (x, fdPage fdnum.toNat) := by
  have hlt := BitVec.lt_def.mp h
  change fdnum.toNat < 32 at hlt
  rw [Spaces.fdLookup, if_neg, pn_index2fd h]
  rw [BitVec.toInt_eq_toNat_of_lt (by omega)]
  omega

/-- The window of a descriptor holds no other descriptor's first page. -/
lemma pn_window_eq (h : fdnum < 32) {i d : ℕ} (hi : i < 1024)
    (heq : pn (fd2data (index2fd fdnum) + BitVec.ofNat 32 (i * 4096)) = dataPage d) :
    d = fdnum.toNat := by
  rw [pn_window h hi] at heq
  exact (dataPage_add_inj hi heq).2.symm

lemma pn_fd2data (h : fdnum < 32) : pn (fd2data (index2fd fdnum)) = dataPage fdnum.toNat := by
  have hw := @pn_window fdnum h 0 (by decide)
  rwa [Nat.zero_mul, show BitVec.ofNat 32 0 = 0#32 from rfl, BitVec.add_zero] at hw

lemma pn_index2fd_ne (h : fdnum < 32) (d : ℕ) : pn (index2fd fdnum) ≠ dataPage d := by
  rw [pn_index2fd h]
  exact (fdPage_lt_dataPage (toNat_lt h)).ne

lemma planOk_dupUndo (h : fdnum < 32) : PlanOk P S x (dupUndo fdnum) := by
  refine PlanOk.of_head (toNat_lt h) (pn_index2fd h) fun w hw d _ heq => ?_
  obtain ⟨i, hi, rfl⟩ := List.mem_map.mp hw
  exact pn_window_eq h (List.mem_range.mp hi) heq

/-- `close` unmaps nothing where `fd_lookup` finds nothing. -/
lemma planOk_closePlan_none (h : S.fdLookup x fdnum = none) (n : ℕ) :
    PlanOk P S x (closePlan P S x fdnum n) := by
  rw [closePlan, h]
  exact PlanOk.of_not_hasFd (by simp)

lemma planOk_closePlan (h : fdnum < 32) {n : ℕ} (hn : n ≤ 1024) :
    PlanOk P S x (closePlan P S x fdnum n) := by
  rw [closePlan, fdLookup_of_lt h]
  split
  · exact PlanOk.of_not_hasFd (by simp)
  · exact PlanOk.of_head (toNat_lt h) (pn_index2fd h) (by simp)
  · next hdev =>
      refine PlanOk.of_not_hasFd fun w hw d _ heq => ?_
      rw [List.mem_append, List.mem_map, List.mem_singleton] at hw
      rcases hw with ⟨i, hi, rfl⟩ | rfl
      · rw [pn_window_eq h (by simpa using (List.mem_range.mp hi).trans_le hn) heq]
        rintro ⟨m, hm, hfd⟩
        rw [hm, Option.bind_some] at hdev
        rcases hfd with hfd | hfd
        · rw [hfd, P.dev_rd] at hdev
          cases hdev
        · rw [hfd, P.dev_wr] at hdev
          cases hdev
      · exact absurd heq (pn_index2fd_ne h d)
  · refine PlanOk.of_head (toNat_lt h) (pn_index2fd h) fun w hw d _ heq => ?_
    rw [List.mem_cons, List.mem_singleton] at hw
    rcases hw with rfl | rfl
    · rw [pn_fd2data h] at heq
      exact (dataPage_add_inj (i := 0) (by decide) heq).2.symm
    · exact absurd heq (pn_index2fd_ne h d)

/-- `close` of a descriptor of the pipe unmaps its `struct Fd` page. -/
lemma mem_closePlan (h : fdnum < 32) {n : ℕ} (hf : HasFd P S x (fdPage fdnum.toNat)) :
    ∃ va ∈ closePlan P S x fdnum n, pn va = fdPage fdnum.toNat := by
  obtain ⟨m, hm, hfd⟩ := hf
  have hdev : P.dev m.page = some .pipe := by
    rcases hfd with hfd | hfd
    · rw [hfd, P.dev_rd]
    · rw [hfd, P.dev_wr]
  refine ⟨index2fd fdnum, ?_, pn_index2fd h⟩
  simp [closePlan, fdLookup_of_lt h, hm, hdev]

lemma memUnmap_of_ne {y v : ℕ} (h : x ≠ y) : S.memUnmap y va (x, v) = S (x, v) := by
  rw [Spaces.memUnmap]
  split
  · rfl
  · exact Function.update_of_ne (fun heq => h (congrArg Prod.fst heq)) _ _

lemma memUnmap_eq {v : ℕ} (h : S.memUnmap x va (x, v) ≠ none) :
    S.memUnmap x va (x, v) = S (x, v) := by
  rw [Spaces.memUnmap] at h ⊢
  split
  · rfl
  · next hl =>
      rw [if_neg hl] at h
      by_cases hv : v = pn va
      · subst hv
        rw [Function.update_self] at h
        exact absurd rfl h
      · exact Function.update_of_ne (fun heq => hv (congrArg Prod.snd heq)) _ _

lemma memUnmap_eq_of_ne {v : ℕ} (h : v ≠ pn va) : S.memUnmap x va (x, v) = S (x, v) := by
  rw [Spaces.memUnmap]
  split
  · rfl
  · exact Function.update_of_ne (fun heq => h (congrArg Prod.snd heq)) _ _

lemma HasFd.of_memUnmap {v : ℕ} (h : HasFd P (S.memUnmap x va) x v) : HasFd P S x v := by
  obtain ⟨m, hm, hf⟩ := h
  exact ⟨m, by rwa [memUnmap_eq (by simp [hm])] at hm, hf⟩

/-- An unmapped `struct Fd` page is gone. -/
lemma not_hasFd_memUnmap {d : ℕ} (hd : d < MAXFD) (hva : pn va = fdPage d) :
    ¬ HasFd P (S.memUnmap x va) x (fdPage d) := by
  rintro ⟨m, hm, -⟩
  rw [Spaces.memUnmap, legal_of_pn_fdPage hd hva, hva] at hm
  simp at hm

lemma PlanOk.tail (h : PlanOk P S x (va :: todo)) : PlanOk P (S.memUnmap x va) x todo := by
  intro pre w post d heq hd hw hf
  obtain ⟨va', hmem, hva'⟩ := h (va :: pre) w post d (by rw [heq, List.cons_append]) hd hw
    hf.of_memUnmap
  rcases List.mem_cons.mp hmem with rfl | hmem
  · exact absurd hf (not_hasFd_memUnmap hd hva')
  · exact ⟨va', hmem, hva'⟩

end Plan

namespace Inv

variable {P : Setup} {s : State} {x : ℕ}

lemma unmap (h : Inv P s) {va : Word} {todo : List Word} {next : Then}
    (hpc : s.pc x = .unmap (va :: todo) next) :
    Inv P ({ s with spaces := s.spaces.memUnmap x va }.setPc x (.unmap todo next)) := by
  have hx : s.pc x ≠ .embryo := by simp [hpc]
  have hctl := h.control x
  rw [hpc] at hctl
  obtain ⟨hplan, hdup⟩ := hctl
  refine h.frame_local (x := x) (fun z hz => ?_) (fun z v hz => memUnmap_of_ne hz) hx
    (by rw [hpc]; rfl) ?_ ?_ (fun v hv => ?_) (fun v hv => ?_) (fun v m hm => ?_)
      (fun v hv => ?_) ?_
  · simp [State.setPc, hz]
  · simp [State.setPc, Pc.copying]
  · simp [State.setPc]
  · obtain ⟨d, hd, rfl, hp⟩ := h.fd_user hx (HasFd.of_memUnmap hv)
    refine ⟨d, hd, rfl, ?_⟩
    -- the page that goes is not the window of a descriptor that stays
    have hne : dataPage d ≠ pn va := by
      intro heq
      obtain ⟨va', hmem, -⟩ := hplan [] va todo d rfl hd heq.symm hv.of_memUnmap
      cases hmem
    exact (hasPipe_congr (memUnmap_eq_of_ne hne)).mpr hp
  · obtain ⟨m, hm, hp⟩ := hv
    change s.spaces.memUnmap x va (x, v) = some m at hm
    rw [memUnmap_eq (by simp [hm])] at hm
    exact h.pipe x v ⟨m, hm, hp⟩
  · change s.spaces.memUnmap x va (x, v) = some m at hm
    rw [memUnmap_eq (by simp [hm])] at hm
    exact h.library x v m hm
  · have heq : s.spaces.memUnmap x va (x, v) = s.spaces (x, v) := memUnmap_eq hv
    exact h.slots x v (heq ▸ hv)
  · simp only [State.setPc, Function.update_self]
    refine ⟨hplan.tail, fun old new hnext => ?_⟩
    obtain ⟨hold, hnew, hmem⟩ := hdup old new hnext
    refine ⟨hold, hnew, fun hf => ?_⟩
    obtain ⟨va', hva', heq⟩ := hmem hf.of_memUnmap
    rcases List.mem_cons.mp hva' with rfl | hva'
    · exact absurd hf (not_hasFd_memUnmap (toNat_lt hnew) heq)
    · exact ⟨va', hva', heq⟩

lemma unmapped (h : Inv P s) {next : Then} (hpc : s.pc x = .unmap [] next) :
    Inv P (s.setPc x next.enter) := by
  have hctl := h.control x
  rw [hpc] at hctl
  refine h.setPc (by simp [hpc]) (by rw [hpc]; rfl) (by cases next <;> rfl)
    (by cases next <;> simp [Then.enter]) ?_
  cases next with
  | ret => trivial
  | dup old new =>
      obtain ⟨hold, hnew, hmem⟩ := hctl.2 old new rfl
      refine ⟨hold, hnew, fun hf => ?_, fun hpos => absurd hpos (lt_irrefl 0)⟩
      obtain ⟨va, hva, -⟩ := hmem hf
      cases hva
  | exit i => trivial

/-- The end of a process. -/
lemma destroy (h : Inv P s) (hx : s.pc x ≠ .embryo) (hcopy : (s.pc x).copying = none) :
    Inv P ({ s with spaces := s.spaces.envFree x }.setPc x .free) := by
  have hnone : ∀ v, s.spaces.envFree x (x, v) = none := fun v => if_pos rfl
  have hother : ∀ z v, z ≠ x → s.spaces.envFree x (z, v) = s.spaces (z, v) :=
    fun z v hz => if_neg hz
  refine h.frame_local (x := x) (fun z hz => ?_) hother hx hcopy ?_ ?_ (fun v hv => ?_)
    (fun v hv => ?_) (fun v m hm => ?_) (fun v hv => ?_) ?_
  · simp [State.setPc, hz]
  · simp [State.setPc, Pc.copying]
  · simp [State.setPc]
  · obtain ⟨m, hm, -⟩ := hv
    exact absurd ((hnone v).symm.trans hm) (by simp)
  · obtain ⟨m, hm, -⟩ := hv
    exact absurd ((hnone v).symm.trans hm) (by simp)
  · exact absurd ((hnone v).symm.trans hm) (by simp)
  · exact absurd (hnone v) hv
  · simp [State.setPc, Control]

end Inv

/-! ### `dup` -/

namespace Inv

variable {P : Setup} {s : State} {x : ℕ}

/-- A process maps one more page into its own address space. -/
lemma mapOwn (h : Inv P s) {pc : Pc} {w : ℕ} {m : Mapping} (hx : s.pc x ≠ .embryo)
    (hcopy : (s.pc x).copying = none) (hcopy' : pc.copying = none) (hx' : pc ≠ .embryo)
    (hxn : x < NENV) (hw : w < 2 ^ 20)
    (hlib : P.IsFd m.page ∨ m.page = P.page → HasFlag m.perm PTE_LIBRARY)
    (hfd : P.IsFd m.page → ∃ d < MAXFD, w = fdPage d ∧ HasPipe P s.spaces x (dataPage d))
    (hpipe : m.page = P.page → ∃ d < MAXFD, w = dataPage d)
    (hkeep : ∀ d < MAXFD, w = dataPage d → HasFd P s.spaces x (fdPage d) → m.page = P.page)
    (hcontrol : Control P (Function.update s.spaces (x, w) (some m)) x pc) :
    Inv P ({ s with spaces := Function.update s.spaces (x, w) (some m) }.setPc x pc) := by
  have hother : ∀ z v, (z, v) ≠ (x, w) →
      Function.update s.spaces (x, w) (some m) (z, v) = s.spaces (z, v) :=
    fun z v hne => Function.update_of_ne hne _ _
  have hself : Function.update s.spaces (x, w) (some m) (x, w) = some m := Function.update_self ..
  have hwindow : ∀ d, w = fdPage d → d < MAXFD → ∀ d', dataPage d' ≠ w := by
    rintro d rfl hd d'
    exact (fdPage_lt_dataPage hd).ne'
  refine h.frame_local (x := x) (fun z hz => ?_) (fun z v hz => ?_) hx hcopy ?_ ?_ (fun v hv => ?_)
    (fun v hv => ?_) (fun v m' hm' => ?_) (fun v hv => ?_) ?_
  · simp [State.setPc, hz]
  · exact hother z v fun heq => hz (congrArg Prod.fst heq)
  · simpa [State.setPc] using hcopy'
  · simpa [State.setPc] using hx'
  · change HasFd P (Function.update s.spaces (x, w) (some m)) x v at hv
    change ∃ d < MAXFD, v = fdPage d ∧
      HasPipe P (Function.update s.spaces (x, w) (some m)) x (dataPage d)
    rw [hasFd_update] at hv
    split at hv
    · next hvw =>
        obtain ⟨d, hd, hwd, hp⟩ := hfd hv
        refine ⟨d, hd, hvw.2.trans hwd, ?_⟩
        rw [hasPipe_update, if_neg fun hc => hwindow d hwd hd d hc.2]
        exact hp
    · obtain ⟨d, hd, rfl, hp⟩ := h.fd_user hx hv
      refine ⟨d, hd, rfl, ?_⟩
      rw [hasPipe_update]
      split
      · next hdw => exact hkeep d hd hdw.2.symm hv
      · exact hp
  · change HasPipe P (Function.update s.spaces (x, w) (some m)) x v at hv
    rw [hasPipe_update] at hv
    split at hv
    · next hvw =>
        obtain ⟨d, hd, hwd⟩ := hpipe hv
        exact ⟨d, hd, hvw.2.trans hwd⟩
    · exact h.pipe x v hv
  · change Function.update s.spaces (x, w) (some m) (x, v) = some m' at hm'
    by_cases hv : v = w
    · subst hv
      rw [hself, Option.some.injEq] at hm'
      exact hm' ▸ hlib
    · rw [hother x v fun heq => hv (congrArg Prod.snd heq)] at hm'
      exact h.library x v m' hm'
  · change Function.update s.spaces (x, w) (some m) (x, v) ≠ none at hv
    by_cases hv' : v = w
    · subst hv'
      exact ⟨hxn, hw⟩
    · rw [hother x v fun heq => hv' (congrArg Prod.snd heq)] at hv
      exact h.slots x v hv
  · simpa [State.setPc] using hcontrol

lemma dupData (h : Inv P s) {i j : ℕ} {old new : Word} {m : Mapping} {S : Spaces}
    (hpc : s.pc x = .dupData old new i) (hij : i ≤ j) (hj : j < 1024)
    (hskip : ∀ l, i ≤ l → l < j →
      s.spaces (x, pn (fd2data (index2fd old) + BitVec.ofNat 32 (l * 4096))) = none)
    (hm : s.spaces (x, pn (fd2data (index2fd old) + BitVec.ofNat 32 (j * 4096))) = some m)
    (hmap : s.spaces.memMap x (fd2data (index2fd old) + BitVec.ofNat 32 (j * 4096)) x
      (fd2data (index2fd new) + BitVec.ofNat 32 (j * 4096)) (dupPerm m) = some S) :
    Inv P ({ s with spaces := S }.setPc x (.dupData old new (j + 1))) := by
  have hx : s.pc x ≠ .embryo := by simp [hpc]
  have hctl := h.control x
  rw [hpc] at hctl
  obtain ⟨hold, hnew, hnot, hdone⟩ := hctl
  obtain ⟨m', hm', rfl⟩ := Spaces.memMap_eq_some hmap
  rw [hm, Option.some.injEq] at hm'
  subst hm'
  rw [pn_window hold hj] at hm
  rw [pn_window hnew hj]
  have hxn := (h.slots x _ (by rw [hm]; simp)).1
  have hd := toNat_lt hnew
  -- the first page of the window is the page of the pipe, if `old` is a descriptor of the pipe
  have hfirst : HasFd P s.spaces x (fdPage old.toNat) → i = 0 → j = 0 ∧ m.page = P.page := by
    intro hf hi
    obtain ⟨m₀, hm₀, hp₀⟩ := h.hasPipe_of_hasFd hx hf
    have hj0 : j = 0 := by
      by_contra hne
      have hnone := hskip 0 (by omega) (by omega)
      rw [pn_window hold (by decide), Nat.add_zero, hm₀] at hnone
      cases hnone
    subst hj0
    rw [Nat.add_zero, hm₀, Option.some.injEq] at hm
    exact ⟨rfl, hm ▸ hp₀⟩
  refine h.mapOwn hx (by rw [hpc]; rfl) rfl (by simp) hxn ?_ ?_ ?_ ?_ ?_ ?_
  · rw [MAXFD] at hd
    rw [dataPage]
    omega
  · exact fun hpage => library_mapped (library_dupPerm (h.library x _ m hm hpage))
  · exact fun hf => absurd ⟨m, hm, hf⟩ (h.not_hasFd_window old.toNat j)
  · intro hp
    obtain ⟨d, -, heq⟩ := h.pipe x _ ⟨m, hm, hp⟩
    rw [(dataPage_add_inj hj heq).1]
    exact ⟨new.toNat, hd, rfl⟩
  · intro d _ heq hf
    rw [(dataPage_add_inj hj heq).2] at hnot
    exact absurd hf hnot
  · have hfdNew : ∀ d, d < MAXFD → (HasFd P (Function.update s.spaces (x, dataPage new.toNat + j)
        (some ⟨m.page, pteBits (entryFlags (dupPerm m ||| PTE_U))⟩)) x (fdPage d) ↔
          HasFd P s.spaces x (fdPage d)) := by
      intro d hd'
      rw [hasFd_update, if_neg]
      rintro ⟨-, heq⟩
      have hlt := @fdPage_lt_dataPage d new.toNat hd'
      omega
    refine ⟨hold, hnew, by rwa [hfdNew _ hd], fun _ hf => ?_⟩
    rw [hfdNew _ (toNat_lt hold)] at hf
    rw [hasPipe_update]
    rcases Nat.eq_zero_or_pos i with hi | hi
    · obtain ⟨rfl, hp⟩ := hfirst hf hi
      rw [if_pos ⟨rfl, rfl⟩]
      exact hp
    · rw [if_neg (by rintro ⟨-, heq⟩; omega)]
      exact hdone hi hf

lemma dupDataEnd (h : Inv P s) {i : ℕ} {old new : Word} (hpc : s.pc x = .dupData old new i)
    (hskip : ∀ l, i ≤ l → l < 1024 →
      s.spaces (x, pn (fd2data (index2fd old) + BitVec.ofNat 32 (l * 4096))) = none) :
    Inv P (s.setPc x (.dupFd old new)) := by
  have hx : s.pc x ≠ .embryo := by simp [hpc]
  have hctl := h.control x
  rw [hpc] at hctl
  obtain ⟨hold, hnew, -, hdone⟩ := hctl
  refine h.setPc hx (by rw [hpc]; rfl) rfl (by simp) ⟨hold, hnew, fun hf => ?_⟩
  rcases Nat.eq_zero_or_pos i with hi | hi
  · obtain ⟨m, hm, -⟩ := h.hasPipe_of_hasFd hx hf
    have hnone := hskip 0 (by omega) (by decide)
    rw [pn_window hold (by decide), Nat.add_zero, hm] at hnone
    cases hnone
  · exact hdone hi hf

lemma dupFd (h : Inv P s) {old new : Word} {m : Mapping} {S : Spaces}
    (hpc : s.pc x = .dupFd old new)
    (hm : s.spaces (x, pn (index2fd old)) = some m)
    (hmap : s.spaces.memMap x (index2fd old) x (index2fd new) (dupPerm m) = some S) :
    Inv P ({ s with spaces := S }.setPc x .user) := by
  have hx : s.pc x ≠ .embryo := by simp [hpc]
  have hctl := h.control x
  rw [hpc] at hctl
  obtain ⟨hold, hnew, hdone⟩ := hctl
  obtain ⟨m', hm', rfl⟩ := Spaces.memMap_eq_some hmap
  rw [hm, Option.some.injEq] at hm'
  subst hm'
  rw [pn_index2fd hold] at hm
  rw [pn_index2fd hnew]
  have hxn := (h.slots x _ (by rw [hm]; simp)).1
  have hd := toNat_lt hnew
  refine h.mapOwn hx (by rw [hpc]; rfl) rfl (by simp) hxn ?_ ?_ ?_ ?_ ?_ trivial
  · rw [MAXFD] at hd
    rw [fdPage]
    omega
  · exact fun hpage => library_mapped (library_dupPerm (h.library x _ m hm hpage))
  · exact fun hf => ⟨new.toNat, hd, rfl, hdone ⟨m, hm, hf⟩⟩
  · intro hp
    obtain ⟨d, -, heq⟩ := h.pipe x _ ⟨m, hm, hp⟩
    exact absurd heq (fdPage_lt_dataPage (toNat_lt hold)).ne
  · intro d _ heq
    exact absurd heq (fdPage_lt_dataPage hd).ne

end Inv

/-! ### `fork` and `spawn` -/

namespace Inv

variable {P : Setup} {s : State} {x c v : ℕ}

/-- A child that is still to get a window is to get it from its parent. -/
lemma pending_parent (h : Inv P s) (hx : (s.pc x).copying = some (c, v)) {d : ℕ}
    (hp : Pending P s c d) : fdPage d < v ∧ v ≤ dataPage d ∧ HasFd P s.spaces x (fdPage d) ∧
      HasPipe P s.spaces x (dataPage d) := by
  obtain ⟨y, v', hy, hlo, hhi, hf, hp⟩ := hp
  obtain rfl := (h.child x c v hx).2.1 y v' hy
  rw [hx, Option.some.injEq, Prod.mk.injEq] at hy
  obtain rfl := hy.2
  exact ⟨hlo, hhi, hf, hp⟩

lemma not_embryo_of_copying {pc : Pc} (h : pc.copying = some (c, v)) : pc ≠ .embryo := by
  rintro rfl
  cases h

lemma child_ne (h : Inv P s) (hx : (s.pc x).copying = some (c, v)) : x ≠ c := by
  rintro rfl
  exact not_embryo_of_copying hx (h.child x x v hx).1

/-- A new child. -/
lemma born (h : Inv P s) {kind : Kind} {prog : ℕ → Option Mapping} (hpc : s.pc x = .user)
    (hc : s.pc c = .free) (hlt : c < NENV) (hpn : ∀ v m, prog v = some m → v < 2 ^ 20)
    (hprog : ∀ v m, prog v = some m → m.page ≠ P.rdFd ∧ m.page ≠ P.wrFd ∧ m.page ≠ P.page) :
    Inv P (({ s with spaces := fresh s.spaces c prog }.setPc c .embryo).setPc x
      (.copy kind c 0)) := by
  have hxc : x ≠ c := by
    rintro rfl
    rw [hpc] at hc
    cases hc
  have hx : s.pc x ≠ .embryo := by simp [hpc]
  have hself : ∀ v, fresh s.spaces c prog (c, v) = prog v := fun v => if_pos rfl
  have hother : ∀ z v, z ≠ c → fresh s.spaces c prog (z, v) = s.spaces (z, v) :=
    fun z v hz => if_neg hz
  have hpcx : ((({ s with spaces := fresh s.spaces c prog } : State).setPc c .embryo).setPc x
      (.copy kind c 0)).pc x = .copy kind c 0 := by simp [State.setPc]
  have hpcc : ((({ s with spaces := fresh s.spaces c prog } : State).setPc c .embryo).setPc x
      (.copy kind c 0)).pc c = .embryo := by simp [State.setPc, hxc.symm]
  have hfdc : ∀ v, ¬ HasFd P (fresh s.spaces c prog) c v := by
    rintro v ⟨m, hm, hf⟩
    rw [hself] at hm
    exact hf.elim (hprog v m hm).1 (hprog v m hm).2.1
  have hpipec : ∀ v, ¬ HasPipe P (fresh s.spaces c prog) c v := by
    rintro v ⟨m, hm, hp⟩
    rw [hself] at hm
    exact (hprog v m hm).2.2 hp
  refine h.frame (x := x) (c := c) (fun z hz hz' => ?_)
    (fun z v _ hz' => hother z v hz') hx ?_ ?_ ?_
    ?_ ?_ ?_ ?_ ?_ ?_ ?_
  · simp [State.setPc, hz, hz']
  · rintro z d v (rfl | rfl) hz
    · rw [hpc] at hz
      cases hz
    · rw [hc] at hz
      cases hz
  · rintro z d v (rfl | rfl) hz
    · rw [hpcx] at hz
      cases hz
      rfl
    · rw [hpcc] at hz
      cases hz
  · intro y v hy
    rw [(h.child y c v hy).1] at hc
    cases hc
  · rintro z v (rfl | rfl) hv
    · have hv' : HasFd P s.spaces z v := (hasFd_congr (hother z v hxc)).mp hv
      obtain ⟨d, hd, hvd, hp⟩ := h.fd_user hx hv'
      exact ⟨d, hd, hvd, .inl ((hasPipe_congr (hother z _ hxc)).mpr hp)⟩
    · exact absurd hv (hfdc v)
  · rintro z v (rfl | rfl) hv
    · exact h.pipe z v ((hasPipe_congr (hother z v hxc)).mp hv)
    · exact absurd hv (hpipec v)
  · rintro z v m (rfl | rfl) hm
    · exact h.library z v m ((hother z v hxc).symm.trans hm)
    · have hm' := (hself v).symm.trans hm
      rintro (hf | hp)
      · exact absurd ⟨m, hm, hf⟩ (hfdc v)
      · exact absurd ⟨m, hm, hp⟩ (hpipec v)
  · rintro z v (rfl | rfl) hv
    · exact h.slots z v fun hnone => hv ((hother z v hxc).trans hnone)
    · obtain ⟨m, hm⟩ := Option.ne_none_iff_exists'.mp hv
      exact ⟨hlt, hpn v m ((hself v).symm.trans hm)⟩
  · rintro y v (rfl | rfl) hy
    · exact ⟨rfl, hpcc, fun u hu => (hu.elim (hfdc u) (hpipec u)).elim⟩
    · rw [hpcc] at hy
      cases hy
  · rintro z (rfl | rfl) hz
    · rw [hpcx] at hz
      cases hz
    · exact hlt
  · rintro z (rfl | rfl)
    · rw [hpcx]
      trivial
    · rw [hpcc]
      trivial

/-- The parent advances in its loop from page number `v` to page number `v'`. -/
lemma advance (h : Inv P s) {pc : Pc} {S : Spaces} {v' : ℕ} (hx : (s.pc x).copying = some (c, v))
    (hcopy : pc.copying = some (c, v')) (hvv : v ≤ v')
    (hsp : ∀ z w, z ≠ x → z ≠ c → S (z, w) = s.spaces (z, w))
    (hxfd : ∀ w, HasFd P S x w ↔ HasFd P s.spaces x w)
    (hxpipe : ∀ w, HasPipe P S x w ↔ HasPipe P s.spaces x w)
    (hcfd : ∀ w, HasFd P S c w → HasFd P s.spaces c w ∨ w + 1 = v' ∧ HasFd P s.spaces x w)
    (hcpipe : ∀ w, HasPipe P S c w → HasPipe P s.spaces c w ∨ w + 1 = v' ∧ HasPipe P s.spaces x w)
    (hckeep : ∀ w < v, HasPipe P s.spaces c w → HasPipe P S c w)
    (hpass : ∀ d < MAXFD, v ≤ dataPage d → dataPage d < v' → HasFd P s.spaces c (fdPage d) →
      HasPipe P s.spaces x (dataPage d) → HasPipe P S c (dataPage d))
    (hlib : ∀ z w m, z = x ∨ z = c → S (z, w) = some m → P.IsFd m.page ∨ m.page = P.page →
      HasFlag m.perm PTE_LIBRARY)
    (hslots : ∀ z w, z = x ∨ z = c → S (z, w) ≠ none → z < NENV ∧ w < 2 ^ 20)
    (hcontrol : Control P S x pc) : Inv P ({ s with spaces := S }.setPc x pc) := by
  have hxc := h.child_ne hx
  have hxe := not_embryo_of_copying hx
  obtain ⟨hemb, huniq, hpos⟩ := h.child x c v hx
  have hpcx : (({ s with spaces := S } : State).setPc x pc).pc x = pc := by simp [State.setPc]
  have hpcc : (({ s with spaces := S } : State).setPc x pc).pc c = .embryo := by
    simpa [State.setPc, hxc.symm] using hemb
  refine h.frame (x := x) (c := c) (fun z hz _ => ?_) hsp hxe ?_ ?_
    (fun y w hy => huniq y w hy) ?_ ?_
    hlib hslots ?_ ?_ ?_
  · simp [State.setPc, hz]
  · rintro z d w (rfl | rfl) hz
    · rw [hx] at hz
      cases hz
      rfl
    · rw [hemb] at hz
      cases hz
  · rintro z d w (rfl | rfl) hz
    · rw [hpcx, hcopy] at hz
      cases hz
      rfl
    · rw [hpcc] at hz
      cases hz
  · rintro z w (rfl | rfl) hv
    · obtain ⟨d, hd, hwd, hp⟩ := h.fd_user hxe ((hxfd w).mp hv)
      exact ⟨d, hd, hwd, .inl ((hxpipe _).mpr hp)⟩
    · -- the child: a descriptor it had already, or the one that it just got
      rcases hcfd w hv with hold | ⟨hw, hnew⟩
      · obtain ⟨d, hd, rfl, hp | hp⟩ := h.fd z w hold
        · exact ⟨d, hd, rfl, .inl (hckeep _ (hpos _ (.inr hp)) hp)⟩
        · obtain ⟨hlo, hhi, hf, hp⟩ := h.pending_parent hx hp
          refine ⟨d, hd, rfl, ?_⟩
          by_cases hlt : dataPage d < v'
          · exact .inl (hpass d hd hhi hlt hold hp)
          · exact .inr ⟨x, v', hpcx.symm ▸ hcopy, by omega, by omega, (hxfd _).mpr hf,
              (hxpipe _).mpr hp⟩
      · obtain ⟨d, hd, rfl, hp⟩ := h.fd_user hxe hnew
        have hlt := @fdPage_lt_dataPage d d hd
        exact ⟨d, hd, rfl, .inr ⟨x, v', hpcx.symm ▸ hcopy, by omega, by omega, (hxfd _).mpr hnew,
          (hxpipe _).mpr hp⟩⟩
  · rintro z w (rfl | rfl) hv
    · exact h.pipe z w ((hxpipe w).mp hv)
    · rcases hcpipe w hv with hold | ⟨-, hnew⟩
      · exact h.pipe z w hold
      · exact h.pipe x w hnew
  · rintro y w (rfl | rfl) hy
    · rw [hpcx, hcopy, Option.some.injEq, Prod.mk.injEq] at hy
      refine ⟨rfl, hpcc, fun u hu => ?_⟩
      have hu' : u < v ∨ u + 1 = v' := by
        rcases hu with hu | hu
        · exact (hcfd u hu).imp (fun hu => hpos u (.inl hu)) (fun hu => hu.1)
        · exact (hcpipe u hu).imp (fun hu => hpos u (.inr hu)) (fun hu => hu.1)
      omega
    · rw [hpcc] at hy
      cases hy
  · rintro z (rfl | rfl) hz
    · rw [hpcx] at hz
      exact absurd hz (not_embryo_of_copying hcopy)
    · exact h.embryo z hemb
  · rintro z (rfl | rfl)
    · rw [hpcx]
      exact hcontrol
    · rw [hpcc]
      trivial

end Inv

namespace Inv

variable {P : Setup} {s : State} {x c v : ℕ}

lemma copying_after (kind : Kind) (m : Mapping) (c u : ℕ) :
    (kind.after m c u).copying = some (c, u + 1) := by
  rw [Kind.after]
  split <;> rfl

/-- A page that `duppage` maps as copy-on-write is no page of the pipe. -/
lemma control_after (h : Inv P s) {kind : Kind} {m : Mapping} {u : ℕ}
    (hm : s.spaces (x, u) = some m) :
    Control P s.spaces x (kind.after m c u) := by
  rw [Kind.after]
  split
  · next hcow =>
      refine ⟨(h.slots x u (by simp [hm])).2, ?_, ?_⟩
      · rintro ⟨m', hm', hf⟩
        rw [hm, Option.some.injEq] at hm'
        exact hcow.2.2 (h.library x u m hm (.inl (hm' ▸ hf)))
      · rintro ⟨m', hm', hp⟩
        rw [hm, Option.some.injEq] at hm'
        exact hcow.2.2 (h.library x u m hm (.inr (hm' ▸ hp)))
  · trivial

/-- The loop advances without a change of an address space. -/
lemma advance_only (h : Inv P s) {pc : Pc} {v' : ℕ} (hx : (s.pc x).copying = some (c, v))
    (hcopy : pc.copying = some (c, v')) (hvv : v ≤ v')
    (hpass : ∀ d < MAXFD, v ≤ dataPage d → dataPage d < v' → HasFd P s.spaces c (fdPage d) →
      ¬ HasPipe P s.spaces x (dataPage d))
    (hcontrol : Control P s.spaces x pc) : Inv P (s.setPc x pc) := by
  refine h.advance hx hcopy hvv (fun _ _ _ _ => rfl) (fun _ => Iff.rfl) (fun _ => Iff.rfl)
    (fun _ hw => .inl hw) (fun _ hw => .inl hw) (fun _ _ hw => hw)
    (fun d hd hlo hhi hf hp => absurd hp (hpass d hd hlo hhi hf)) ?_ ?_ hcontrol
  · exact fun z w m _ => h.library z w m
  · exact fun z w _ => h.slots z w

lemma copy (h : Inv P s) {kind : Kind} {u : ℕ} {m : Mapping} {S : Spaces}
    (hpc : s.pc x = .copy kind c v) (hvu : v ≤ u)
    (hskip : ∀ l m, v ≤ l → l < u → s.spaces (x, l) = some m → ¬ kind.selects m)
    (hm : s.spaces (x, u) = some m)
    (hmap : s.spaces.memMap x (pageVa u) c (pageVa u) (kind.perm m) = some S) :
    Inv P ({ s with spaces := S }.setPc x (kind.after m c u)) := by
  have hx : (s.pc x).copying = some (c, v) := by
    rw [hpc]
    rfl
  have hxc := h.child_ne hx
  obtain ⟨hxn, hu⟩ := h.slots x u (by simp [hm])
  obtain ⟨m', hm', rfl⟩ := Spaces.memMap_eq_some hmap
  rw [pn_pageVa hu] at hm' ⊢
  rw [hm, Option.some.injEq] at hm'
  subst hm'
  have hlibm : P.IsFd m.page ∨ m.page = P.page → HasFlag m.perm PTE_LIBRARY := h.library x u m hm
  refine h.advance hx (copying_after kind m c u) (by omega) (fun z w _ hz => ?_) (fun w => ?_)
    (fun w => ?_) (fun w hw => ?_) (fun w hw => ?_) (fun w hw hp => ?_)
    (fun d hd hlo hhi hf hp => ?_) ?_ ?_ ?_
  · exact Function.update_of_ne (fun heq => hz (congrArg Prod.fst heq)) _ _
  · rw [hasFd_update, if_neg fun hc => hxc hc.1]
  · rw [hasPipe_update, if_neg fun hc => hxc hc.1]
  · rw [hasFd_update] at hw
    split at hw
    · next hcw => exact .inr ⟨by omega, m, hcw.2 ▸ hm, hw⟩
    · exact .inl hw
  · rw [hasPipe_update] at hw
    split at hw
    · next hcw => exact .inr ⟨by omega, m, hcw.2 ▸ hm, hw⟩
    · exact .inl hw
  · rw [hasPipe_update, if_neg (by rintro ⟨-, rfl⟩; omega)]
    exact hp
  · -- a window of the parent is not passed over
    obtain ⟨m₀, hm₀, hp₀⟩ := hp
    have hlib₀ := h.library x _ m₀ hm₀ (.inr hp₀)
    have hsel : kind.selects m₀ := by
      cases kind with
      | fork => trivial
      | spawn => exact hlib₀
    have heq : dataPage d = u := by
      by_contra hne
      exact hskip (dataPage d) m₀ hlo (by omega) hm₀ hsel
    rw [hasPipe_update, if_pos ⟨rfl, heq⟩]
    rw [heq, hm, Option.some.injEq] at hm₀
    rw [hm₀]
    exact hp₀
  · intro z w m' _ hm' hpage
    by_cases hzw : (z, w) = (c, u)
    · rw [hzw, Function.update_self, Option.some.injEq] at hm'
      subst hm'
      rw [Kind.perm_of_library (hlibm hpage)]
      exact library_mapped (hlibm hpage)
    · rw [Function.update_of_ne hzw] at hm'
      exact h.library z w m' hm' hpage
  · intro z w _ hw
    by_cases hzw : (z, w) = (c, u)
    · cases hzw
      exact ⟨h.embryo c (h.child x c v hx).1, hu⟩
    · rw [Function.update_of_ne hzw] at hw
      exact h.slots z w hw
  · rw [control_congr fun w => Function.update_of_ne (fun heq => hxc (congrArg Prod.fst heq)) _ _]
    exact h.control_after hm

lemma protect (h : Inv P s) {perm : Word} {S : Spaces} (hpc : s.pc x = .protect c v perm)
    (hmap : s.spaces.memMap x (pageVa v) x (pageVa v) perm = some S) :
    Inv P ({ s with spaces := S }.setPc x (.copy .fork c (v + 1))) := by
  have hx : (s.pc x).copying = some (c, v + 1) := by
    rw [hpc]
    rfl
  have hxc := h.child_ne hx
  have hctl := h.control x
  rw [hpc] at hctl
  obtain ⟨hv, hnotFd, hnotPipe⟩ := hctl
  obtain ⟨m, hm, rfl⟩ := Spaces.memMap_eq_some hmap
  rw [pn_pageVa hv] at hm ⊢
  have hfd : ¬ P.IsFd m.page := fun hf => hnotFd ⟨m, hm, hf⟩
  have hpipe : m.page ≠ P.page := fun hp => hnotPipe ⟨m, hm, hp⟩
  have hchild : ∀ w, Function.update s.spaces (x, v)
    (some ⟨m.page, pteBits (entryFlags (perm ||| PTE_U))⟩)
      (c, w) = s.spaces (c, w) :=
    fun w => Function.update_of_ne (fun heq => hxc (congrArg Prod.fst heq).symm) _ _
  refine h.advance hx rfl le_rfl (fun z w hz _ => ?_) (fun w => ?_) (fun w => ?_) (fun w hw => ?_)
    (fun w hw => ?_) (fun w _ hp => ?_) (fun d _ hlo hhi => absurd hhi (by omega)) ?_ ?_ trivial
  · exact Function.update_of_ne (fun heq => hz (congrArg Prod.fst heq)) _ _
  · rw [hasFd_update]
    split
    · next hw => exact iff_of_false hfd (hw.2 ▸ hnotFd)
    · rfl
  · rw [hasPipe_update]
    split
    · next hw => exact iff_of_false hpipe (hw.2 ▸ hnotPipe)
    · rfl
  · exact .inl ((hasFd_congr (hchild w)).mp hw)
  · exact .inl ((hasPipe_congr (hchild w)).mp hw)
  · exact (hasPipe_congr (hchild w)).mpr hp
  · intro z w m' _ hm' hpage
    by_cases hzw : (z, w) = (x, v)
    · rw [hzw, Function.update_self, Option.some.injEq] at hm'
      subst hm'
      exact (hpage.elim hfd hpipe).elim
    · rw [Function.update_of_ne hzw] at hm'
      exact h.library z w m' hm' hpage
  · intro z w _ hw
    by_cases hzw : (z, w) = (x, v)
    · rw [hzw, Function.update_self] at hw
      cases hzw
      exact h.slots x v (by simp [hm])
    · rw [Function.update_of_ne hzw] at hw
      exact h.slots z w hw

/-- The child is let go: it has every window, or nothing at all. -/
lemma release (h : Inv P s) {S : Spaces} {pc : Pc} (hx : (s.pc x).copying = some (c, v))
    (hpc : pc = .user ∨ pc = .free) (hsp : ∀ z w, z ≠ c → S (z, w) = s.spaces (z, w))
    (hle : ∀ w m, S (c, w) = some m → s.spaces (c, w) = some m)
    (hwindow : ∀ d < MAXFD, HasFd P S c (fdPage d) → HasPipe P S c (dataPage d)) :
    Inv P (({ s with spaces := S }.setPc c pc).setPc x .user) := by
  have hxc := h.child_ne hx
  have hxe := not_embryo_of_copying hx
  obtain ⟨hemb, huniq, -⟩ := h.child x c v hx
  have hcopy : pc.copying = none := by rcases hpc with rfl | rfl <;> rfl
  have hpcx : ((({ s with spaces := S } : State).setPc c pc).setPc x .user).pc x = .user := by
    simp [State.setPc]
  have hpcc : ((({ s with spaces := S } : State).setPc c pc).setPc x .user).pc c = pc := by
    simp [State.setPc, hxc.symm]
  refine h.frame (x := x) (c := c) (fun z hz hz' => ?_) (fun z w _ hz => hsp z w hz) hxe ?_ ?_
    (fun y w hy => huniq y w hy) ?_ ?_ ?_ ?_ ?_ ?_ ?_
  · simp [State.setPc, hz, hz']
  · rintro z d w (rfl | rfl) hz
    · rw [hx] at hz
      cases hz
      rfl
    · rw [hemb] at hz
      cases hz
  · rintro z d w (rfl | rfl) hz
    · rw [hpcx] at hz
      cases hz
    · rw [hpcc, hcopy] at hz
      cases hz
  · rintro z w (rfl | rfl) hv
    · obtain ⟨d, hd, hwd, hp⟩ := h.fd_user hxe ((hasFd_congr (hsp z w hxc)).mp hv)
      exact ⟨d, hd, hwd, .inl ((hasPipe_congr (hsp z _ hxc)).mpr hp)⟩
    · obtain ⟨m, hm, hf⟩ := id hv
      obtain ⟨d, hd, rfl, -⟩ := h.fd z w ⟨m, hle w m hm, hf⟩
      exact ⟨d, hd, rfl, .inl (hwindow d hd hv)⟩
  · rintro z w (rfl | rfl) ⟨m, hm, hp⟩
    · exact h.pipe z w ⟨m, (hsp z w hxc).symm.trans hm, hp⟩
    · exact h.pipe z w ⟨m, hle w m hm, hp⟩
  · rintro z w m (rfl | rfl) hm
    · exact h.library z w m ((hsp z w hxc).symm.trans hm)
    · exact h.library z w m (hle w m hm)
  · rintro z w (rfl | rfl) hw
    · exact h.slots z w fun hnone => hw ((hsp z w hxc).trans hnone)
    · obtain ⟨m, hm⟩ := Option.ne_none_iff_exists'.mp hw
      exact h.slots z w (by simp [hle w m hm])
  · rintro y w (rfl | rfl) hy
    · rw [hpcx] at hy
      cases hy
    · rw [hpcc, hcopy] at hy
      cases hy
  · rintro z (rfl | rfl) hz
    · rw [hpcx] at hz
      cases hz
    · rw [hpcc] at hz
      subst hz
      rcases hpc with hpc | hpc <;> cases hpc
  · rintro z (rfl | rfl)
    · rw [hpcx]
      trivial
    · rw [hpcc]
      rcases hpc with rfl | rfl <;> trivial

lemma copied (h : Inv P s) {kind : Kind} (hpc : s.pc x = .copy kind c v)
    (hskip : ∀ l m, v ≤ l → l < kind.limit → s.spaces (x, l) = some m → ¬ kind.selects m) :
    Inv P ((s.setPc c .user).setPc x .user) := by
  have hx : (s.pc x).copying = some (c, v) := by
    rw [hpc]
    rfl
  refine h.release hx (.inl rfl) (fun _ _ _ => rfl) (fun _ _ hm => hm) fun d hd hf => ?_
  obtain ⟨d', hd', heq, hp | hp⟩ := h.fd c _ hf
  · rwa [fdPage_inj heq]
  · obtain ⟨-, hhi, -, m, hm, hp⟩ := h.pending_parent hx hp
    have hsel : kind.selects m := by
      cases kind with
      | fork => trivial
      | spawn => exact h.library x _ m hm (.inr hp)
    exact absurd hsel (hskip (dataPage d') m hhi (dataPage_lt_limit hd' kind) hm)

lemma aborted (h : Inv P s) (hpc : s.pc x = .abort c v) :
    Inv P (({ s with spaces := s.spaces.envFree c }.setPc c .free).setPc x .user) := by
  have hx : (s.pc x).copying = some (c, v) := by
    rw [hpc]
    rfl
  have hnone : ∀ w, s.spaces.envFree c (c, w) = none := fun w => if_pos rfl
  refine h.release hx (.inr rfl) (fun z w hz => if_neg hz) (fun w m hm => ?_) fun d _ hf => ?_
  · rw [hnone] at hm
    cases hm
  · obtain ⟨m, hm, -⟩ := hf
    rw [hnone] at hm
    cases hm

/-- **A careful step keeps the invariant.** -/
lemma step {s' : State} {a : Act} (h : Inv P s) (hc : Careful P s a) (hs : Step P s a s') :
    Inv P s' := by
  cases hs with
  | close fdnum n hpc hn =>
      refine h.setPc (by simp [hpc]) (by rw [hpc]; rfl) rfl (by simp) ⟨?_, ?_⟩
      · exact hc.elim (fun hlt => planOk_closePlan hlt hn) fun hnone =>
          planOk_closePlan_none hnone n
      · rintro old new ⟨⟩
  | dup old new n hpc hn hold =>
      refine h.setPc (by simp [hpc]) (by rw [hpc]; rfl) rfl (by simp) ⟨planOk_closePlan hc.2 hn, ?_⟩
      rintro old' new' ⟨⟩
      exact ⟨hc.1, hc.2, mem_closePlan hc.2⟩
  | fork hpc hfree hlt => exact h.born hpc hfree hlt (by simp) (by simp)
  | spawn prog hpc hfree hlt hpn hprog => exact h.born hpc hfree hlt hpn hprog
  | exit hpc => exact h.setPc (by simp [hpc]) (by rw [hpc]; rfl) rfl (by simp) trivial
  | check fdnum hpc => exact h
  | unmap hpc => exact h.unmap hpc
  | unmapped hpc => exact h.unmapped hpc
  | dupData j m S hpc hij hj hskip hm hmap => exact h.dupData hpc hij hj hskip hm hmap
  | @dupDataFail x i old new hpc =>
      have hctl := h.control x
      rw [hpc] at hctl
      refine h.setPc (by simp [hpc]) (by rw [hpc]; rfl) rfl (by simp) ⟨planOk_dupUndo hctl.2.1, ?_⟩
      rintro old' new' ⟨⟩
  | dupDataEnd hpc hskip => exact h.dupDataEnd hpc hskip
  | dupFd m S hpc hm hmap => exact h.dupFd hpc hm hmap
  | @dupFdFail x old new hpc =>
      have hctl := h.control x
      rw [hpc] at hctl
      refine h.setPc (by simp [hpc]) (by rw [hpc]; rfl) rfl (by simp) ⟨planOk_dupUndo hctl.2.1, ?_⟩
      rintro old' new' ⟨⟩
  | @closeAll x i n hpc hi hn =>
      have hi' : BitVec.ofNat 32 i < 32 := by
        rw [MAXFD] at hi
        rw [BitVec.lt_def, BitVec.toNat_ofNat]
        change i % 2 ^ 32 < 32
        omega
      refine h.setPc (by simp [hpc]) (by rw [hpc]; rfl) rfl (by simp) ⟨planOk_closePlan hi' hn, ?_⟩
      rintro old new ⟨⟩
  | destroy hpc hi => exact h.destroy (by simp [hpc]) (by rw [hpc]; rfl)
  | copy u m S hpc hvu hu hskip hm hsel hmap => exact h.copy hpc hvu hskip hm hmap
  | copyFail u m hpc hvu hu hskip hm =>
      refine h.advance_only (by rw [hpc]; rfl) (copying_after _ m _ u) (by omega)
        (fun d hd hlo hhi hf hp => ?_) (h.control_after hm)
      -- the window is mapped in the parent, so it is the page that could not be mapped
      have heq : dataPage d = u := by
        by_contra hne
        obtain ⟨m', hm', -⟩ := hp
        exact absurd (hm'.symm.trans (hskip _ hlo (by omega))) (by simp)
      exact hc ⟨_, _, d, hpc, hd, hlo, fun l hl hlt => hskip l hl (heq ▸ hlt), hf⟩
  | copyAbort hpc =>
      exact h.advance_only (by rw [hpc]; rfl) rfl le_rfl (fun d _ hlo hhi => absurd hhi (by omega))
        trivial
  | protect S hpc hmap => exact h.protect hpc hmap
  | protectFail hpc =>
      exact h.advance_only (by rw [hpc]; rfl) rfl le_rfl (fun d _ hlo hhi => absurd hhi (by omega))
        trivial
  | copied hpc hskip => exact h.copied hpc hskip
  | aborted hpc => exact h.aborted hpc

end Inv

end MosRv.PipeEnds
