import MosRv.User.RelativesFork

/-!
# Copy on write is copying

Every step of the processes and of the others is one of the machine (`Step.reaches`), keeps the
invariant, and is one of the frames (`Step.frames`).  So the processes find on their pages, at any
time in any run, what they would find if `fork` had copied the pages (`copy_on_write_copies`).
-/

namespace MosRv

open Prog CopyOnWrite

namespace Relatives

section

variable {mc : Machine} {T : Template} {k : Kernel} {x x' : State} {p : ℕ} {cow : Word}
  {frame : Syscall → Trapframe} {act : Act} {acts : List Act}

/-! ## Steps of the machine -/

/-- A step of `fork` is one of the machine, or a call. -/
lemma fork_reaches {X Y : Fork.State} (h : Reaches mc (fun k ev => ev.Admissible k) X.k)
    (hstep : Fork.Step p cow X Y) : Reaches mc (fun k ev => ev.Admissible k) Y.k := by
  cases hstep with
  | other _ hstep hadm _ => exact h.step ⟨hadm, hstep⟩
  | entryCall _ _ _ hcall | exofork _ _ hcall | map _ _ hcall | remap _ _ hcall | setEntry _ _ hcall
  | setStatus _ _ hcall => exact hcall.reaches h
  | _ => exact h

/-- **The machine does every step.** -/
lemma Step.reaches (h : Reaches mc (fun k ev => ev.Admissible k) x.k)
    (hframe : ∀ c, (frame c).Calls c)
    (hstep : Step cow frame x act x') : Reaches mc (fun k ev => ev.Admissible k) x'.k := by
  cases hstep with
  | @store p va b k' _ _ hstore =>
      have hadm : (Event.store va b).Admissible x.k := trivial
      exact h.step ⟨hadm, hstore⟩
  | copy _ _ hfault _ hrun =>
      obtain ⟨T, -, -, hgap, hk⟩ := h.kInv fun _ _ hc => hc
      obtain ⟨k', hrun', -, -, -, hl⟩ := trapToCow_run hk hgap hfault hframe
      rw [hrun] at hrun'
      cases hrun'
      exact hl.reaches h
  | @demand p tf k' _ hcause _ _ htrap =>
      have hadm : (Event.trap tf).Admissible x.k := by
        intro call hcall
        rcases hcause with hc | hc
        · exact absurd (hc.symm.trans hcall.1) (by decide)
        · exact absurd (hc.symm.trans hcall.1) (by decide)
      exact h.step ⟨hadm, htrap⟩
  | alloc _ _ _ _ _ hcall | allocShared _ _ _ _ _ _ hcall | share _ _ _ _ _ _ _ _ _ hcall
  | unmap _ _ _ hcall => exact hcall.reaches h
  | @exit p tf k' _ _ hcall htrap =>
      have hadm : (Event.trap tf).Admissible x.k := by
        intro call hcall'
        rw [hcall'.unique hcall]
        rintro pp perm hmapped
        cases hmapped
      exact h.step ⟨hadm, htrap⟩
  | idle hadm hev _ _ => exact h.step ⟨hadm, hev⟩
  | outside hout =>
      obtain ⟨c, ev, -, hadm, -, hev⟩ := hout
      exact h.step ⟨hadm, hev⟩
  | call _ _ | ret _ _ => exact h
  | fork _ _ hfork _ _ _ => exact fork_reaches h hfork

/-- **Every step is one of the frames, and keeps the invariant.** -/
theorem Step.frames (h : Reaches mc (fun k ev => ev.Admissible k) x.k) (hok : Ok x)
    (hframe : ∀ c, (frame c).Calls c) (hstep : Step cow frame x act x') :
    Ok x' ∧ Frames.Step x.view x'.view act := by
  obtain ⟨T, -, -, hgap, hk⟩ := h.kInv fun _ _ hc => hc
  cases hstep with
  | store hp hva hstore => exact store_step hk hgap hok hp hva hstore
  | copy hp hva hfault hfork hrun => exact copy_step hk hgap hok hframe hp hva hfault hfork hrun
  | demand hp hcause hva hno htrap => exact demand_step hk hgap hok hp hcause hva hno htrap
  | alloc hp hidle hva hperm hown hcall =>
      exact alloc_step hk hgap hok hp hidle hva hperm hown hcall
  | allocShared hp hidle hva hperm hshared hcow hcall hf =>
      exact allocShared_step hk hgap hok hp hidle hva hperm hshared hcow hcall hf
  | share hp hidle hsrc hw hlib hva hperm hshared hcow hcall =>
      exact share_step hk hgap hok hp hidle hsrc hw hlib hva hperm hshared hcow hcall
  | unmap hp hidle hva hcall => exact unmap_step hk hgap hok h.envInv hp hidle hva hcall
  | exit hp hidle hcall htrap => exact exit_step hk hgap hok hp hidle hcall htrap
  | idle _ _ hpm hfam => exact idle_step hok hpm hfam
  | outside hout => exact outside_step hk hgap h.envInv hok hout
  | call hp hidle => exact call_step hok hp hidle
  | fork hp hpc hfork hne hexofork hmap =>
      exact fork_step hk hgap h.envInv (fun _ _ hl => h.head_lt hl) hok hp hpc hfork
        hne hexofork hmap
  | ret hp hpc => exact ret_step hok hp hpc

/-! ## Runs -/

/-- A run, with what happens to the pages. -/
inductive Run (cow : Word) (frame : Syscall → Trapframe) : State → List Act → State → Prop
  | nil {x : State} : Run cow frame x [] x
  | cons {x x₁ x' : State} {act : Act} {acts : List Act} (hstep : Step cow frame x act x₁)
      (hrun : Run cow frame x₁ acts x') : Run cow frame x (act :: acts) x'

lemma Run.frames (h : Reaches mc (fun k ev => ev.Admissible k) x.k) (hok : Ok x)
    (hframe : ∀ c, (frame c).Calls c) (hrun : Run cow frame x acts x') :
    Ok x' ∧ Frames.Run x.view acts x'.view := by
  induction hrun with
  | nil => exact ⟨hok, .nil⟩
  | cons hstep _ ih =>
      obtain ⟨hok', hs⟩ := hstep.frames h hok hframe
      obtain ⟨hok'', hr⟩ := ih (hstep.reaches h hframe) hok'
      exact ⟨hok'', .cons hs hr⟩

/-- **Copy on write is copying.**  Take processes in a state that the machine reaches, and what they
and the others do from there, in any order: stores and faults, copies on write, mapping calls,
exits, and calls of `fork`, each step of which may come after any steps of others.  Then every
process finds on each of its pages what it would find in the plain memory, in which a child is given
copies. -/
theorem copy_on_write_copies {mc : Machine} {cow : Word}
    {frame : Syscall → Trapframe} {x x' : State}
    {acts : List Act} (h : Reaches mc (fun k ev => ev.Admissible k) x.k) (hok : Ok x)
    (hframe : ∀ c, (frame c).Calls c) (hrun : Run cow frame x acts x') :
    Ok x' ∧ x'.view.Represents (acts.foldl Plain.exec x.view.plain) ∧
      ∀ p v, (acts.foldl Plain.exec x.view.plain).load p v = x'.view.load p v := by
  obtain ⟨hok', hr⟩ := hrun.frames h hok hframe
  obtain ⟨-, hrep⟩ := hr.represents hok.sound x.view.represents_plain
  exact ⟨hok', hrep, hrep.load⟩

/-! ## Where it begins -/

/-- The env `p` has its pages for itself. -/
structure Alone (k : Kernel) (p : ℕ) : Prop where
  live : k.Live p
  window : ∀ va, UVPT ≤ va → va < ULIM → k.entry p va = none
  scratch : k.entry p UCOW = none
  sole : ∀ va w q va' w', IsOwnVa va → k.entry p va = some w → k.Live q → IsOwnVa va' →
    k.entry q va' = some w' → pteFrame w' = pteFrame w → q = p ∧ VPN va' = VPN va
  library : ∀ va w, IsPage (VPN va).toNat → k.entry p va = some w → HasFlag w PTE_LIBRARY →
    ¬ HasFlag w PTE_COW

/-- The env `p`, which has not called `fork`. -/
def State.alone (k : Kernel) (p : ℕ) : State where
  k := k
  members := {p}
  forks := fun _ => none

/-- **An env that has its pages for itself can begin.** -/
lemma Alone.ok (h : Alone k p) : Ok (State.alone k p) := by
  have hview : ∀ {q v f a}, (State.alone k p).view.entry q v = some (f, a) → q = p ∧ IsPage v ∧
      ∃ w, k.pageEntry p v = some w ∧ pteFrame w = f ∧ flagsOf w = a := by
    intro q v f a he
    obtain ⟨rfl, hv, -, hw⟩ := of_view_entry he
    exact ⟨rfl, hv, hw⟩
  refine ⟨⟨?_, ?_, ?_, ?_, ?_⟩, fun q pc hpc => absurd hpc (by simp [State.alone]), ⟨?_, ?_, ?_⟩⟩
  · rintro q rfl
    exact h.live
  · rintro q rfl
    exact h.window
  · rintro q rfl
    exact h.scratch
  · rintro q rfl wx hwx r va w hr hva hw hf
    exact h.sole XSTACK wx r va w isOwnVa_XSTACK hwx hr hva hw hf
  · rintro q rfl va w hva hw - r va' w' hr hva' hw' hf
    obtain ⟨rfl, hvpn⟩ := h.sole va w r va' w' hva.isOwnVa hw hr hva' hw' hf
    exact ⟨rfl, hvpn ▸ hva⟩
  · intro q v f a he _ _ r u b he'
    obtain ⟨rfl, hv, w, hw, rfl, -⟩ := hview he
    obtain ⟨rfl, hu, w', hw', hf, -⟩ := hview he'
    obtain ⟨-, hvpn⟩ := h.sole _ w r _ w' (isOwnVa_page hv) hw h.live (isOwnVa_page hu) hw' hf
    rw [← VPN_pageVa hv, ← VPN_pageVa hu, hvpn]
    exact ⟨rfl, rfl⟩
  · intro q v f a r u b he he'
    obtain ⟨rfl, hv, w, hw, rfl, rfl⟩ := hview he
    obtain ⟨rfl, hu, w', hw', hf, rfl⟩ := hview he'
    obtain ⟨-, hvpn⟩ := h.sole _ w r _ w' (isOwnVa_page hv) hw h.live (isOwnVa_page hu) hw' hf
    have hvu : v = u := by rw [← VPN_pageVa hv, ← VPN_pageVa hu, hvpn]
    rw [hvu, hw'] at hw
    cases hw
    rfl
  · intro q v f a he hs
    obtain ⟨rfl, hv, w, hw, rfl, rfl⟩ := hview he
    have hpage : IsPage (VPN (BitVec.ofNat 32 v <<< 12)).toNat := (VPN_pageVa hv).symm ▸ hv
    have hno := h.library _ w hpage hw (by simpa [flagsOf] using hs)
    simpa [flagsOf] using hno

/-! ## `fork`, followed by a store

The plain memory is carried along a run (`Ran`).  While one process is in a call of `fork`, and no
other one is (`Forking`), it runs whenever its env does; it passes over the pages that are not
mapped (`Ran.scan`), and sends those that are. -/

lemma Run.snoc {x₁ : State} (hrun : Run cow frame x acts x₁) (hstep : Step cow frame x₁ act x') :
    Run cow frame x (acts ++ [act]) x' := by
  induction hrun with
  | nil => exact .cons hstep .nil
  | cons h _ ih => exact .cons h (ih hstep)

/-- A run from `x₀` has come to `x`, where the plain memory is `r`. -/
structure Ran (mc : Machine) (cow : Word) (frame : Syscall → Trapframe) (x₀ x : State)
    (r : Plain ℕ ℕ ℕ Page) : Prop where
  reaches : Reaches mc (fun k ev => ev.Admissible k) x.k
  ok : Ok x
  run : ∃ acts, Run cow frame x₀ acts x ∧ acts.foldl Plain.exec x₀.view.plain = r

/-- The process `p` is at `pc` of a call of `fork`, and no other one is in such a call. -/
structure Forking (x : State) (p : ℕ) (pc : Fork.Pc) : Prop where
  cur : x.k.curenv = some p
  mem : p ∈ x.members
  self : x.forks p = some pc
  other : ∀ q ≠ p, x.forks q = none

section

variable {x₀ : State} {r : Plain ℕ ℕ ℕ Page} {pc pc' : Fork.Pc} {child : Word} {i j : ℕ}
  {y : Fork.State}

lemma Ran.step (h : Ran mc cow frame x₀ x r) (hframe : ∀ c, (frame c).Calls c)
    (hstep : Step cow frame x act x') : Ran mc cow frame x₀ x' (r.exec act) := by
  obtain ⟨acts, hrun, hr⟩ := h.run
  refine ⟨hstep.reaches h.reaches hframe, (hstep.frames h.reaches h.ok hframe).1, acts ++ [act],
    hrun.snoc hstep, ?_⟩
  rw [List.foldl_append, hr, List.foldl_cons, List.foldl_nil]

lemma Forking.forked (h : Forking x p pc) (hcur : k.curenv = some p) :
    Forking (x.forked p k pc') p pc' :=
  ⟨hcur, .inl h.mem, forked_forks_self, fun q hq => (forked_forks_of_ne hq).trans (h.other q hq)⟩

/-- Such a process runs, as it is not its own child. -/
lemma Forking.runs (h : Forking x p pc) (hinv : EnvInv x.k) (hok : Ok x) : x.Runs p := by
  refine ⟨h.cur, h.mem, ?_⟩
  rintro q ⟨pc₁, child, hpc, hchild, hid⟩
  obtain rfl : q = p := by
    by_contra hqp
    cases (h.other q hqp).symm.trans hpc
  obtain ⟨c, n, hm⟩ := (hok.forks q pc₁ hpc).2.making hchild
  exact hm.ne (envId_inj hinv (hok.pages.live c hm.mem) (hok.pages.live q h.mem)
    (hm.envId.trans hid.symm))

lemma Ran.envInv (h : Ran mc cow frame x₀ x r) : EnvInv x.k := Reaches.envInv h.reaches

/-- **A step of `fork` that calls nothing.** -/
lemma Ran.goto (h : Ran mc cow frame x₀ x r) (hframe : ∀ c, (frame c).Calls c) (hf : Forking x p pc)
    (pc' : Fork.Pc) (hstep : Fork.Step p cow ⟨x.k, pc, none, fun _ => none⟩ y) (hk : y.k = x.k)
    (hpc : y.pc = pc') (hne : pc' ≠ pc) (hexofork : pc ≠ .exofork)
    (hmap : ∀ child i j perm again, pc ≠ .map child i j perm again)
    (hact : State.forkAct p pc = .idle) :
    Ran mc cow frame x₀ (x.forked p x.k pc') r ∧ Forking (x.forked p x.k pc') p pc' := by
  subst hpc
  have hs : Step cow frame x (State.forkAct p pc) (x.forked p y.k y.pc) :=
    .fork (hf.runs h.envInv h.ok) hf.self hstep hne (fun hc => absurd hc hexofork)
      fun _ _ _ _ _ hc => absurd hc (hmap _ _ _ _ _)
  rw [hact, hk] at hs
  exact ⟨h.step hframe hs, hf.forked hf.cur⟩

/-- What is not mapped is not valid in `vpt`. -/
lemma not_valid_of_pageEntry {k : Kernel} {S : Set ℕ} {v : ℕ} (h : Pages k S)
    (hp : p ∈ S) (hv : IsPage v)
    (hno : k.pageEntry p v = none) : ¬ HasFlag (k.vptWord (k.envs p).envPgdir v) PTE_V := by
  intro hvalid
  have hentry := pageEntry_eq_vptWord h hp hv.lt_UTOP
  rw [hno, validWord_of_valid hvalid] at hentry
  cases hentry

/-- The page table of what is mapped is valid in `vpd`. -/
lemma valid_vpd {k : Kernel} {S : Set ℕ} {va : Word} (h : Pages k S) (hp : p ∈ S)
    (hva : k.entry p va ≠ none) :
    HasFlag (k.vpdWord (k.envs p).envPgdir (PDX va)) PTE_V := by
  have hi : PDX va < 1024 := by
    have hlt := va.isLt
    rw [PDX_eq]
    omega
  obtain ⟨hlo, hhi⟩ := vpd_inWindow hi
  have hnone : k.pm.entryAt (k.envs p).envPgdir (vpd (BitVec.ofNat 32 (PDX va))) = none :=
    h.window p hp _ hlo hhi
  rw [Kernel.vpdWord, Kernel.windowWord, Pmap.readable, hnone, Option.bind_none, Option.getD_none]
  exact pde_valid_of_entryAt hva

/-- **`fork` passes over the pages that are not mapped.** -/
lemma Ran.scan (hframe : ∀ c, (frame c).Calls c) : ∀ {n : ℕ} {x : State}, n ≤ 1024 →
    Ran mc cow frame x₀ x r → Forking x p (.pte child i 0) →
    (∀ j < n, IsPage (i * 1024 + j) ∧ x.k.pageEntry p (i * 1024 + j) = none) →
    ∃ x', x'.k = x.k ∧ Ran mc cow frame x₀ x' r ∧ Forking x' p (.pte child i n)
  | 0, x, _, h, hf, _ => ⟨x, rfl, h, hf⟩
  | n + 1, x, hn, h, hf, hno => by
      obtain ⟨x', hk, h', hf'⟩ := Ran.scan hframe (Nat.le_of_succ_le hn) h hf fun j hj =>
        hno j (Nat.lt_succ_of_lt hj)
      obtain ⟨hv, hnone⟩ := hno n n.lt_succ_self
      rw [← hk] at hnone
      have hskip := not_valid_of_pageEntry h'.ok.pages hf'.mem hv hnone
      have hs := h'.goto hframe hf' (.pte child i (n + 1))
        (.pteSkip rfl hf'.cur (by omega) fun hc => hskip hc.2) rfl rfl (by simp)
          (by simp) (by simp) rfl
      exact ⟨x'.forked p x'.k (.pte child i (n + 1)), hk, hs⟩

/-- It finds a page that is mapped, and looks at its permissions. -/
lemma Ran.found {w : Word} (h : Ran mc cow frame x₀ x r) (hframe : ∀ c, (frame c).Calls c)
    (hf : Forking x p (.pte child i j)) (hj : j < 1024) (hv : IsPage (i * 1024 + j))
    (hw : x.k.pageEntry p (i * 1024 + j) = some w) :
    ∃ x', x'.k = x.k ∧ Ran mc cow frame x₀ x' r ∧
      Forking x' p (.map child i j (Fork.duppage (pteBits w)).1 (Fork.duppage (pteBits w)).2) := by
  have hread := pageEntry_eq_vptWord h.ok.pages hf.mem hv.lt_UTOP
  have hvalid : HasFlag (x.k.vptWord (x.k.envs p).envPgdir (i * 1024 + j)) PTE_V := by
    by_contra hno
    rw [hw, validWord_of_not_valid hno] at hread
    cases hread
  rw [hw, validWord_of_valid hvalid] at hread
  obtain rfl := Option.some.inj hread
  obtain ⟨h₁, hf₁⟩ := h.goto hframe hf (.dup child i j)
    (.pte rfl hf.cur hj hv.1 hvalid) rfl rfl (by simp)
    (by simp) (by simp) rfl
  have h₂ := h₁.goto hframe hf₁ _ (.dup rfl hf₁.cur) rfl rfl (by simp [Fork.State.goto]) (by simp)
    (by simp) rfl
  exact ⟨(x.forked p x.k (.dup child i j)).forked p x.k _, rfl, h₂⟩

end

/-- Env 0 runs, `cow_entry` is its handler, it has the page `w` at `UTEMP`, and the envs have no
pages but at the places of `l`. -/
structure Holds (k : Kernel) (l : List (ℕ × Word)) (w : Word) (n : ℕ) : Prop where
  cur : k.curenv = some 0
  handler : (k.envs 0).envUserTlbModEntry = UTEXT
  page : k.entry 0 UTEMP = some w
  only : ∀ q va, k.Live q → IsOwnVa va → k.entry q va ≠ none →
    ∃ place ∈ l, q = place.1 ∧ VPN va = VPN place.2
  room : n ≤ k.pm.pageFreeList.length

section

variable {l l' : List (ℕ × Word)} {w w' : Word} {c e n : ℕ} {o : Option Word} {r : Word}

lemma Holds.remapped (h : Holds k l w n) (hset : k.Remapped k' e UTEMP o)
    (hl : ∀ place ∈ l, place ∈ l')
    (he : (e, UTEMP) ∈ l') (hpage : k'.entry 0 UTEMP = some w')
    (hlen : k.pm.pageFreeList.length ≤ k'.pm.pageFreeList.length + 1) : Holds k' l' w' (n - 1) := by
  refine ⟨hset.curenv_eq.trans h.cur, by rw [hset.envs_eq, h.handler], hpage,
    fun q va hq hva hsome => ?_, ?_⟩
  · have hq' := hset.live_iff.mp hq
    rw [hset.entry q va hq' hva] at hsome
    split_ifs at hsome with hc
    · exact ⟨(e, UTEMP), he, hc⟩
    · obtain ⟨place, hplace, hat⟩ := h.only q va hq' hva hsome
      exact ⟨place, hl place hplace, hat⟩
  · have := h.room
    omega

/-- Below `UTEMP`, env 0 has no page. -/
lemma Holds.skips {j : ℕ} (h : Holds k [(0, UTEMP)] w n) (hk : KInv T k) (hj : j < 1022) :
    IsPage (0 * 1024 + j) ∧ k.pageEntry 0 (0 * 1024 + j) = none := by
  have hS : (VPN USTACKTOP).toNat = 0x7f3fe := by decide
  have hC : (VPN UCOW).toNat = 1023 := by decide
  have hT : (VPN UTEMP).toNat = 1022 := by decide
  have hpage : IsPage (0 * 1024 + j) := ⟨by omega, by omega⟩
  refine ⟨hpage, ?_⟩
  by_contra hsome
  obtain ⟨place, hplace, -, hvpn⟩ :=
    h.only 0 _ (Kernel.live_of_cur hk h.cur) (isOwnVa_page hpage) hsome
  obtain rfl := List.mem_singleton.mp hplace
  have hv := VPN_pageVa hpage
  rw [hvpn, hT] at hv
  omega

/-- Each page is mapped no more often than there are places. -/
lemma Holds.refCount_le (h : Holds k l w n) (hk : KInv T k) (hgap : T.gap = true) :
    k.refCount (pteFrame w) ≤ l.length :=
  refCount_le_length l hk hgap ⟨0, UTEMP, w, Kernel.live_of_cur hk h.cur,
    isOwnVa_of_lt (by decide), h.page, rfl⟩
    fun q va w' hq hva hw' _ => h.only q va hq hva (by simp [hw'])

/-- The child of env 0 has no pages. -/
lemma Holds.exofork (h : Holds k l w n) (hk : KInv T k) (hgap : T.gap = true) (hinv : EnvInv k)
    (hok : ¬ Fork.ForkFails k) (hcall : k.Calls .exofork r k') : Holds k' l w (n - 1) := by
  have hlive := Kernel.live_of_cur hk h.cur
  obtain ⟨c, rest, pp, prest, u, hl, hf, hpm, hcur, henvs, hdir, -, -, -⟩ := hcall.exofork h.cur hok
  have hfree : (k.envs c).envStatus = .free := hinv.free_free c (by simp [hl])
  have hs : k.Spares {x | k.Live x} k' :=
    spares_setupVm hk hgap (fun _ hl => hl) hf hfree hpm henvs hdir
  have hc0 : 0 ≠ c := by
    rintro rfl
    exact hlive hfree
  have hsame : ∀ q ≠ c, k'.envs q = k.envs q := fun q hq => by rw [henvs, Function.update_of_ne hq]
  refine ⟨hcur.trans h.cur, by rw [hsame 0 hc0, h.handler], ?_, fun q va hq hva hsome => ?_, ?_⟩
  · rw [hs.entry 0 hlive _ (isOwnVa_of_lt (by decide)), h.page]
  · by_cases hqc : q = c
    · refine absurd ?_ hsome
      rw [Kernel.entry, hqc, henvs, Function.update_self, hdir, hpm]
      exact entryAt_setupVm_none hk hf hva
    · have hq' : k.Live q := by rwa [Kernel.Live, ← hsame q hqc]
      rw [hs.entry q hq' va hva] at hsome
      exact h.only q va hq' hva hsome
  · have hroom := h.room
    rw [hf, List.length_cons] at hroom
    rw [hpm]
    exact Nat.sub_le_of_le_add hroom

end

/-- Env 0 runs, `cow_entry` is its handler, no env has pages, and it can make a child. -/
structure Ready (k : Kernel) (n : ℕ) : Prop where
  cur : k.curenv = some 0
  handler : (k.envs 0).envUserTlbModEntry = UTEXT
  empty : ∀ q va, k.Live q → IsOwnVa va → k.entry q va = none
  room : n ≤ k.pm.pageFreeList.length
  free : k.envFreeList.head? = some 1
  asid : k.HasAsid
  mkenvid : k.mkenvidI = 1#32

lemma Ready.alone {n : ℕ} (h : Ready k n) (hk : KInv T k) : Alone k 0 := by
  have hlive := Kernel.live_of_cur hk h.cur
  refine ⟨hlive, fun va hlo hhi => h.empty 0 va hlive (isOwnVa_window hlo hhi),
    h.empty 0 _ hlive (isOwnVa_of_lt (by decide)), fun va w q va' w' hva hw => ?_,
      fun va w hva hw => ?_⟩
  · rw [h.empty 0 va hlive hva] at hw
    cases hw
  · rw [h.empty 0 va hlive hva.isOwnVa] at hw
    cases hw

lemma exists_ready : ∃ k, Reaches (smallMachine false) (fun k ev => ev.Admissible k) k ∧
    Ready k 9 := by
  obtain ⟨k₁, hreach, h⟩ := exists_registered
  obtain ⟨T, -, -, hgap, hk₁⟩ := hreach.kInv fun _ _ hc => hc
  -- the program is unmapped
  obtain ⟨k₂, hrun, ⟨hk₂, hl⟩, hset, -, hlen⟩ := trap_memUnmap hk₁ hgap h.cur
    (by decide : isIllegalVa ecallVa = false) (Syscall.frame_calls _)
  obtain ⟨m, tf, hk₂'⟩ := hset.rest
  have hroom := h.room
  refine ⟨k₂, hl.reaches hreach, hset.curenv_eq.trans h.cur, by rw [hset.envs_eq, h.handler],
    fun q va hq hva => ?_, by omega, ?_, ?_, ?_⟩
  · have hq' := hset.live_iff.mp hq
    obtain rfl := (h.live q).mp hq'
    rw [hset.entry 0 va hq' hva]
    split_ifs with hc
    · rfl
    · exact h.empty va (isOwnVa_cases hva) fun hvpn => hc ⟨rfl, hvpn⟩
  · rw [hk₂', ← h.free]
  · rw [hk₂']
    exact h.asid
  · rw [hk₂', ← h.mkenvid]

section

variable {x₀ : State} {r : Plain ℕ ℕ ℕ Page} {child w : Word} {c n : ℕ}

/-- The page is allocated. -/
lemma Ready.alloc (h : Ready k n) (hk : KInv T k) (hgap : T.gap = true) (hn : 2 ≤ n) :
    ∃ k' w, k.Calls (.memAlloc 0#32 UTEMP PTE_W) 0#32 k' ∧ Holds k' [(0, UTEMP)] w (n - 2) ∧
      flagsOf w = ⟨true, false, false⟩ ∧ k'.envFreeList = k.envFreeList ∧
      k'.asidBitmap = k.asidBitmap ∧ k'.mkenvidI = k.mkenvidI := by
  have hlive := Kernel.live_of_cur hk h.cur
  have hroom := h.room
  obtain ⟨k', pp, rest, hrun, hf, -, hset, -, hlen, hzero⟩ := trap_memAlloc hk hgap h.cur
    (by decide : isIllegalVa UTEMP = false) (by decide : PTE_W < 0x400) (by omega)
    (Syscall.frame_calls (.memAlloc 0#32 UTEMP PTE_W))
  have hpp : pp < 0x80000 := hk.pages.free_lt pp (by rw [hf]; exact List.mem_cons_self)
  have hcall := Kernel.Calls.of_trap h.cur (admissible_memAlloc hk (by decide)) hrun
  rw [hzero] at hcall
  rw [hf, List.length_cons] at hroom
  obtain ⟨m, tf, hk'⟩ := hset.rest
  refine ⟨k', _, hcall, ⟨hset.curenv_eq.trans h.cur, by rw [hset.envs_eq, h.handler],
    hset.entry_self hlive (isOwnVa_of_lt (by decide)), fun q va hq hva hsome => ?_, by omega⟩,
      ?_, ?_⟩
  · rw [hset.entry q va (hset.live_iff.mp hq) hva] at hsome
    split_ifs at hsome with hc
    · exact ⟨(0, UTEMP), List.mem_singleton_self _, hc⟩
    · exact absurd (h.empty q va (hset.live_iff.mp hq) hva) hsome
  · rw [flagsOf_inserted _ hpp (by decide)]
    simp only [flagsOf, Flags.mk.injEq, decide_eq_true_eq, decide_eq_false_iff_not]
    decide
  · rw [hk']
    exact ⟨rfl, rfl, rfl⟩

/-- `fork` is called, and has no handler to register. -/
lemma Ran.called (h : Ran mc cow frame x₀ x r) (hframe : ∀ c, (frame c).Calls c)
    (hcur : x.k.curenv = some p) (hp : p ∈ x.members) (hnone : ∀ q, x.forks q = none)
    (hset : (x.k.envs p).envUserTlbModEntry = cow) :
    ∃ x', x'.k = x.k ∧ Ran mc cow frame x₀ x' r ∧ Forking x' p .exofork := by
  have hruns : x.Runs p :=
    ⟨hcur, hp, fun q ⟨pc, _, hpc, _⟩ => absurd ((hnone q).symm.trans hpc) (by simp)⟩
  have h₁ := h.step hframe (.call hruns (hnone p))
  have hf : Forking { x with forks := Function.update x.forks p (some .entry) } p .entry :=
    ⟨hcur, hp, Function.update_self _ _ _, fun q hq =>
      (Function.update_of_ne hq _ _).trans (hnone q)⟩
  obtain ⟨h₂, hf₂⟩ := h₁.goto hframe hf .exofork (.entrySet rfl hcur hset) rfl rfl
    (by simp) (by simp)
    (by simp) rfl
  refine ⟨_, ?_, h₂, hf₂⟩
  rfl

/-- The child is made. -/
lemma Ran.born (h : Ran mc cow frame x₀ x r) (hframe : ∀ c, (frame c).Calls c)
    (hf : Forking x p .exofork) (hok : ¬ Fork.ForkFails x.k) (hcall : x.k.Calls .exofork child k')
    (hne : child ≠ 0#32) :
    Ran mc cow frame x₀ (x.forked p k' (.pde child 0)) r ∧
      Forking (x.forked p k' (.pde child 0)) p (.pde child 0) := by
  obtain ⟨-, -, -, -, -, -, -, -, hcur, -⟩ := hcall.exofork hf.cur hok
  have hs : Step cow frame x .idle
      (x.forked p k' (if child = 0#32 then .returned 0#32 else .pde child 0)) :=
    .fork (hf.runs h.envInv h.ok) hf.self (.exofork rfl hf.cur hcall) (by simp [hne])
      (fun _ => hok) (by simp)
  rw [if_neg hne] at hs
  exact ⟨h.step hframe hs, hf.forked (hcur.trans hf.cur)⟩

/-- The place in `fork` where the page at `UTEMP` is sent. -/
lemma UTEMP_page : (BitVec.ofNat 32 (0 * 1024 + 1022) <<< 12 : Word) = UTEMP ∧
    IsPage (0 * 1024 + 1022) ∧ isIllegalVa UTEMP = false ∧ IsOwnVa UTEMP :=
  ⟨by decide, ⟨by decide, by decide⟩, by decide, isOwnVa_of_lt (by decide)⟩

/-- The page at `UTEMP` is mapped in the child … -/
lemma Ran.mapped {perm : Word} (h : Ran mc UTEXT frame x₀ x r) (hframe : ∀ c, (frame c).Calls c)
    (hf : Forking x 0 (.map child 0 1022 perm true)) (hh : Holds x.k [(0, UTEMP)] w n) (hn : 1 ≤ n)
    (hperm : perm < 0x400#32) :
    ∃ k', Ran mc UTEXT frame x₀ (x.forked 0 k' (.remap child 0 1022 perm)) r ∧
      Forking (x.forked 0 k' (.remap child 0 1022 perm)) 0 (.remap child 0 1022 perm) ∧
      Holds k' [(0, UTEMP), (ENVX child, UTEMP)] w (n - 1) ∧ ENVX child ≠ 0 := by
  obtain ⟨hva, -, hlegal, hown⟩ := UTEMP_page
  obtain ⟨T, -, -, hgap, hk⟩ := h.reaches.kInv fun _ _ hc => hc
  have hlive := Kernel.live_of_cur hk hf.cur
  have hruns := hf.runs h.envInv h.ok
  obtain ⟨-, -, -, c, hm⟩ := (h.ok.forks 0 _ hf.self).2
  obtain rfl := hm.envx h.envInv h.ok.pages hruns
  have hrefs : x.k.refCount (pteFrame w) < 65535 :=
    lt_of_le_of_lt (hh.refCount_le hk hgap) (by simp)
  have hfree : x.k.pm.pageFreeList ≠ [] := List.ne_nil_of_length_pos (hn.trans hh.room)
  obtain ⟨k', hrun, -, hset, -, hlen, hzero⟩ :=
    trap_memMap hk hgap hf.cur hlegal hlegal hperm hh.page
    hrefs (hm.resolves h.envInv h.ok.pages hruns) (h.ok.pages.live _ hm.mem) (.inl hfree)
    (Syscall.frame_calls (.memMap 0#32 UTEMP child UTEMP perm))
  have hcall := Kernel.Calls.of_trap hf.cur (admissible_memMap hf.cur hperm hh.page hrefs) hrun
  rw [← hva] at hcall
  have hs : Step UTEXT frame x .idle (x.forked 0 k' (.remap child 0 1022 perm)) :=
    .fork hruns hf.self (.map rfl hf.cur hcall) (by simp) (by simp) fun _ _ _ _ _ _ => hzero
  have hpage : k'.entry 0 UTEMP = some w :=
    (hset.entry_of_ne hlive hown fun hc => hm.ne hc.1.symm).trans hh.page
  exact ⟨k', h.step hframe hs, hf.forked (hset.curenv_eq.trans hf.cur),
    hh.remapped hset (by simp) (by simp) hpage hlen, hm.ne⟩

/-- … and again in the parent. -/
lemma Ran.remapped {perm : Word} (h : Ran mc UTEXT frame x₀ x r) (hframe : ∀ c, (frame c).Calls c)
    (hf : Forking x 0 (.remap child 0 1022 perm)) (hh : Holds x.k [(0, UTEMP), (c, UTEMP)] w n)
    (hdup : Fork.duppage (pteBits w) = (perm, true)) :
    ∃ x' w', Ran mc UTEXT frame x₀ x' (r.exec (.dup 0 (ENVX child) 1022)) ∧
      Forking x' 0 (.pte child 0 1023) ∧ Holds x'.k [(0, UTEMP), (c, UTEMP)] w' (n - 1) ∧
      flagsOf w' = (flagsOf w).dup := by
  obtain ⟨hva, -, hlegal, hown⟩ := UTEMP_page
  obtain ⟨T, -, -, hgap, hk⟩ := h.reaches.kInv fun _ _ hc => hc
  have hlive := Kernel.live_of_cur hk hf.cur
  have hpp := T.lt_max (Kernel.Maps.mem_pool hk hgap ⟨0, UTEMP, w, hlive, hown, hh.page, rfl⟩)
  have hperm : perm < 0x400#32 := by
    have hlt := Fork.duppage_lt w
    rwa [hdup] at hlt
  have hrefs : x.k.refCount (pteFrame w) < 65535 :=
    lt_of_le_of_lt (hh.refCount_le hk hgap) (by simp)
  obtain ⟨k', hrun, -, hset, -, hlen, -⟩ :=
    trap_memMap hk hgap hf.cur hlegal hlegal hperm hh.page hrefs
    (.self rfl hf.cur) hlive (.inr (hasFlag_pde_of_entry hh.page))
    (Syscall.frame_calls (.memMap 0#32 UTEMP 0#32 UTEMP perm))
  have hcall := Kernel.Calls.of_trap hf.cur (admissible_memMap hf.cur hperm hh.page hrefs) hrun
  rw [← hva] at hcall
  have hs : Step UTEXT frame x (.dup 0 (ENVX child) 1022) (x.forked 0 k' (.pte child 0 1023)) :=
    .fork (hf.runs h.envInv h.ok) hf.self (.remap rfl hf.cur hcall) (by simp) (by simp) (by simp)
  rw [hh.page] at hset
  exact ⟨_, _, h.step hframe hs, hf.forked (hset.curenv_eq.trans hf.cur),
    hh.remapped hset (fun _ hp => hp) (by simp) (hset.entry_self hlive hown) hlen,
    (duppage_word (some w) hpp hdup).2⟩

/-- The page at `UTEMP` is sent. -/
lemma Ran.send (h : Ran mc UTEXT frame x₀ x r) (hframe : ∀ c, (frame c).Calls c)
    (hf : Forking x 0 (.pte child 0 1022)) (hh : Holds x.k [(0, UTEMP)] w n) (hn : 1 ≤ n)
    (hflags : flagsOf w = ⟨true, false, false⟩) :
    ∃ x' w', Ran mc UTEXT frame x₀ x' (r.exec (.dup 0 (ENVX child) 1022)) ∧
      Forking x' 0 (.pte child 0 1023) ∧ Holds x'.k [(0, UTEMP), (ENVX child, UTEMP)] w' (n - 2) ∧
      ENVX child ≠ 0 ∧ flagsOf w' = ⟨false, true, false⟩ := by
  have hentry : x.k.pageEntry 0 (0 * 1024 + 1022) = some w := by
    rw [Kernel.pageEntry, UTEMP_page.1]
    exact hh.page
  have hagain : (Fork.duppage (pteBits w)).2 = true := duppage_again.mpr
    ⟨of_decide_eq_true (congrArg Flags.write hflags),
      of_decide_eq_false (congrArg Flags.shared hflags)⟩
  obtain ⟨x₁, hk₁, h₁, hf₁⟩ := h.found hframe hf (by decide) UTEMP_page.2.1 hentry
  rw [hagain] at hf₁
  rw [← hk₁] at hh
  obtain ⟨k₂, h₂, hf₂, hh₂, hne⟩ := h₁.mapped hframe hf₁ hh hn (Fork.duppage_lt w)
  obtain ⟨x₃, w', h₃, hf₃, hh₃, hflags'⟩ := h₂.remapped hframe hf₂ hh₂ (Prod.ext rfl hagain)
  exact ⟨x₃, w', h₃, hf₃, hh₃, hne, by rw [hflags', hflags]; rfl⟩

/-- A store to the page, once it has been sent, faults. -/
lemma Holds.cowFault (h : Holds k [(0, UTEMP), (c, UTEMP)] w n) (hk : KInv T k) (hn : 4 ≤ n)
    (hwindow : k.entry 0 (vpt (VPN UTEMP)) = none) (hflags : flagsOf w = ⟨false, true, false⟩) :
    CowFault k 0 UTEXT { zeroTf with cause := CAUSE_FAULT_STORE, badvaddr := UTEMP } w := by
  refine ⟨h.cur, h.handler, by decide, rfl, by decide, h.page, ?_, ?_, by decide, by decide,
    fun wx hwx => ?_, ?_, hn.trans h.room⟩
  · exact of_decide_eq_true (congrArg Flags.onWrite hflags)
  · exact of_decide_eq_false (congrArg Flags.write hflags)
  · obtain ⟨place, hplace, -, hvpn⟩ :=
      h.only 0 XSTACK (Kernel.live_of_cur hk h.cur) isOwnVa_XSTACK (by simp [hwx])
    have hne : VPN XSTACK ≠ VPN UTEMP := by decide
    rcases List.mem_pair.mp hplace with rfl | rfl
    · exact absurd hvpn hne
    · exact absurd hvpn hne
  · rw [Pmap.readable, show k.pm.entryAt (k.envs 0).envPgdir (vpt (VPN UTEMP)) = none from hwindow,
      Option.bind_none]

/-- The parent stores to the page, and it is copied first. -/
lemma Ran.stored (h : Ran mc UTEXT frame x₀ x r) (hframe : ∀ c, (frame c).Calls c)
    (hf : Forking x 0 (.pte child 0 1023)) (hh : Holds x.k [(0, UTEMP), (c, UTEMP)] w n)
    (hn : 4 ≤ n)
    (hflags : flagsOf w = ⟨false, true, false⟩) (b : BitVec 8) :
    ∃ x', Ran mc UTEXT frame x₀ x' (r.exec (.store 0 1022 fun g => Function.update g 0 b)) := by
  obtain ⟨T, -, -, hgap, hk⟩ := h.reaches.kInv fun _ _ hc => hc
  have hpage : IsPage (VPN UTEMP).toNat := ⟨by decide, by decide⟩
  obtain ⟨tf, hva, hfault⟩ : ∃ tf : Trapframe, tf.badvaddr = UTEMP ∧ CowFault x.k 0 UTEXT tf w :=
    ⟨_, rfl, hh.cowFault hk hn (h.ok.pages.window 0 hf.mem _ (by decide) (by decide)) hflags⟩
  obtain ⟨k', hrun, -, hcopied, hk', -⟩ := trapToCow_run hk hgap hfault hframe
  have h₁ := h.step hframe (.copy (hf.runs h.envInv h.ok) (hva.symm ▸ hpage) hfault
    (fun _ _ _ _ _ hpc => absurd (hf.self.symm.trans hpc) (by simp)) hrun)
  obtain ⟨m, tf', hrest⟩ := hcopied.rest
  have hcur : k'.curenv = some 0 := by rw [hrest, hf.cur]
  have hf₁ : Forking { x with k := k' } 0 (.pte child 0 1023) := ⟨hcur, hf.mem, hf.self, hf.other⟩
  obtain ⟨w', hw', hbits, -⟩ := hcopied.copy
  rw [hva] at hw'
  have hW : HasFlag w' PTE_W := by
    have hwrite := congrArg Flags.write (flagsOf_copied hbits)
    exact of_decide_eq_true hwrite
  have hU : HasFlag w' PTE_U := by
    have hself : HasFlag PTE_U PTE_U := by decide
    rw [← hasFlag_pteBits (by decide), hbits]
    simp [entryFlags, hself]
  obtain ⟨k'', hstore⟩ := exists_store (b := b) hk' hcur (by decide) hw' hW hU
  have hs := h₁.step hframe (.store (hf₁.runs h₁.envInv h₁.ok) hpage hstore)
  have hvpn : (VPN UTEMP).toNat = 1022 := by decide
  have hoffset : (⟨UTEMP.toNat % 4096, Nat.mod_lt _ (by decide)⟩ : Fin 4096) = 0 := by decide
  rw [hvpn, hoffset] at hs
  exact ⟨_, hs⟩

end

/-- Env 0 allocates a page and calls `fork`, and stores to the page when it has been sent to the
child, which is env 1. -/
lemma exists_run : ∃ x x' acts, Reaches (smallMachine false)
    (fun k ev => ev.Admissible k) x.k ∧ Ok x ∧
    Run UTEXT Syscall.frame x acts x' ∧
    (acts.foldl Plain.exec x.view.plain).load 0 1022 = some (Function.update (fun _ => 0#8) 0 7#8) ∧
    (acts.foldl Plain.exec x.view.plain).load 1 1022 = some fun _ => 0#8 := by
  have hframe := Syscall.frame_calls
  obtain ⟨k₀, hreach, hready⟩ := exists_ready
  obtain ⟨T, -, -, hgap, hk₀⟩ := hreach.kInv fun _ _ hc => hc
  have hok := (hready.alone hk₀).ok
  have h₀ : Ran (smallMachine false) UTEXT Syscall.frame (State.alone k₀ 0) (State.alone k₀ 0)
      (State.alone k₀ 0).view.plain := ⟨hreach, hok, [], .nil, rfl⟩
  have hvpn : (VPN UTEMP).toNat = 1022 := by decide
  -- the page is allocated
  obtain ⟨k₁, w, hcall₁, hh₁, hflags, hfree, hasid, hmkenvid⟩ := hready.alloc hk₀ hgap (by decide)
  have h₁ := h₀.step hframe (.alloc ⟨hready.cur, rfl, fun q ⟨_, _, hpc, _⟩ =>
    absurd hpc (by simp [State.alone])⟩ rfl
    ⟨by decide, by decide⟩ (by decide) (by decide) hcall₁)
  rw [hvpn] at h₁
  -- the child is made
  obtain ⟨x₂, hk₂, h₂, hf₂⟩ := h₁.called hframe hh₁.cur rfl (fun _ => rfl) hh₁.handler
  rw [← show x₂.k = k₁ from hk₂] at hh₁ hfree hasid hmkenvid
  have hforks : ¬ Fork.ForkFails x₂.k := by
    rintro (hno | hno | hno)
    · have hhead := hready.free
      rw [← hfree, hno] at hhead
      cases hhead
    · exact absurd hh₁.room (by simp [hno])
    · rw [Kernel.HasAsid, hasid] at hno
      exact hno hready.asid
  obtain ⟨c, rest, k₃, hl, hcall₃⟩ := Kernel.exists_exofork hf₂.cur hforks
  obtain rfl : c = 1 := by
    have hhead := hready.free
    rw [← hfree, hl] at hhead
    exact Option.some.inj hhead
  have hchild : x₂.k.nextId 1 = 0x1001#32 := by
    rw [Kernel.nextId, hmkenvid, hready.mkenvid]
    decide
  rw [hchild] at hcall₃
  obtain ⟨T₂, -, -, hgap₂, hkInv₂⟩ := h₂.reaches.kInv fun _ _ hc => hc
  have hh₃ := hh₁.exofork hkInv₂ hgap₂ h₂.envInv hforks hcall₃
  obtain ⟨T₃, -, -, -, hkInv₃⟩ := (hcall₃.reaches h₂.reaches).kInv fun _ _ hc => hc
  obtain ⟨h₃, hf₃⟩ := h₂.born hframe hf₂ hforks hcall₃ (by decide)
  -- the page is found and sent
  have hpde := valid_vpd h₃.ok.pages hf₃.mem
    (show Kernel.entry _ 0 UTEMP ≠ none from hh₃.page ▸ by simp)
  rw [show PDX UTEMP = 0 by decide] at hpde
  obtain ⟨h₄, hf₄⟩ := h₃.goto hframe hf₃ (.pte 0x1001#32 0 0)
    (.pde rfl hf₃.cur (by decide) hpde) rfl rfl
    (by simp) (by simp) (by simp) rfl
  obtain ⟨x₅, hk₅, h₅, hf₅⟩ := h₄.scan hframe (by decide) hf₄ fun j hj => hh₃.skips hkInv₃ hj
  rw [← show x₅.k = k₃ from hk₅] at hh₃
  obtain ⟨x₆, w', h₆, hf₆, hh₆, -, hflags'⟩ := h₅.send hframe hf₅ hh₃ (by decide) hflags
  -- env 0 stores to it
  obtain ⟨x₇, h₇⟩ := h₆.stored hframe hf₆ hh₆ (by decide) hflags' 7#8
  obtain ⟨acts, hrun, hr⟩ := h₇.run
  have hid : ENVX 0x1001#32 = 1 := by decide
  refine ⟨State.alone k₀ 0, x₇, acts, hreach, hok, hrun, ?_, ?_⟩
  · rw [hr, hid]
    simp [Plain.exec, Plain.load, Plain.setCell]
  · rw [hr, hid]
    simp [Plain.exec, Plain.load, Plain.setCell]

theorem copy_on_write_copies_small : ∃ x x' acts, Reaches (smallMachine false)
    (fun k ev => ev.Admissible k) x.k ∧ Ok x ∧ Run UTEXT Syscall.frame x acts x' ∧
    x'.view.load 0 1022 = some (Function.update (fun _ => 0#8) 0 7#8) ∧
    (x'.view.load 1 1022 = some fun _ => 0#8) ∧
    (Ok x' ∧ x'.view.Represents (acts.foldl Plain.exec x.view.plain) ∧
      ∀ p v, (acts.foldl Plain.exec x.view.plain).load p v = x'.view.load p v) := by
  obtain ⟨x, x', acts, hreach, hok, hrun, hparent, hchild⟩ := exists_run
  have hcopies := copy_on_write_copies hreach hok Syscall.frame_calls hrun
  rw [hcopies.2.2] at hparent hchild
  exact ⟨x, x', acts, hreach, hok, hrun, hparent, hchild, hcopies⟩

end

end Relatives

end MosRv
