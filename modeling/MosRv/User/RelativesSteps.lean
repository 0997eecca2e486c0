import MosRv.User.Relatives

/-!
# Steps of related processes

What a store, a fault, a mapping call, an exit and the steps of other envs do to the pages of the
processes (`Relatives.State.view`), each with the invariant `Relatives.Ok`.  The calls of `fork`
that are in progress stay where they are (`At.congr`): nobody but `fork` changes the pages of a
child in the making, and the page that `duppage` is at work on keeps its entry.
-/

namespace MosRv

open Prog CopyOnWrite

namespace Relatives

/-- The page that `duppage` is about to map, or to map again, with permissions it has read. -/
def sent : Fork.Pc → Option ℕ
  | .map _ i j _ _ | .remap _ i j _ => some (i * 1024 + j)
  | _ => none

section

variable {mc : Machine} {T : Template} {k k' : Kernel} {S : Set ℕ} {x x' : State}
    {e p q c v n f : ℕ}
  {va y w child : Word} {o : Option Word} {pc : Fork.Pc}

/-! ## Calls of `fork` in progress -/

lemma Making.makes (h : Making x p c child n) (hpc : x.forks p = some pc)
    (hchild : childOf pc = some child) : x.Makes p c := ⟨pc, child, hpc, hchild, h.envId⟩

/-- What has happened to the child `c` of `p`: nothing. -/
structure Same (x x' : State) (p c : ℕ) : Prop where
  mem : c ∈ x'.members
  envId : (x'.k.envs c).envId = (x.k.envs c).envId
  envParentId : (x'.k.envs c).envParentId = (x.k.envs c).envParentId
  parent : (x'.k.envs p).envId = (x.k.envs p).envId
  idle : x'.forks c = x.forks c
  entry : ∀ v, IsPage v → x'.k.pageEntry c v = x.k.pageEntry c v

lemma Making.congr (h : Making x p c child n) (hs : Same x x' p c) : Making x' p c child n where
  mem := hs.mem
  ne := h.ne
  slot := h.slot
  ne_zero := h.ne_zero
  envId := hs.envId.trans h.envId
  envParentId := by rw [hs.envParentId, hs.parent, h.envParentId]
  idle := hs.idle.trans h.idle
  empty v hn hv := (hs.entry v hv).trans (h.empty v hn hv)

lemma Making.le {n' : ℕ} (h : Making x p c child n) (hle : n ≤ n') : Making x p c child n' :=
  { h with empty := fun v hn hv => h.empty v (hle.trans hn) hv }

/-- **A call of `fork` is where it was.** -/
lemma At.congr (h : At x p pc) (hpc : x.forks p = some pc)
    (hs : ∀ c, c ∈ x.members → x.Makes p c → Same x x' p c)
    (hsome : ∀ v, IsPage v → x.k.pageEntry p v ≠ none → x'.k.pageEntry p v ≠ none)
    (hsent : ∀ v, IsPage v → sent pc = some v → x'.k.pageEntry p v = x.k.pageEntry p v) :
    At x' p pc := by
  have hmaking : ∀ {c child n}, Making x p c child n → childOf pc = some child →
      Same x x' p c := fun hm hchild => hs _ hm.mem (hm.makes hpc hchild)
  cases pc with
  | entry | exofork | returned => trivial
  | pde child i =>
      obtain ⟨c, hm⟩ := h
      exact ⟨c, hm.congr (hmaking hm rfl)⟩
  | pte child i j =>
      obtain ⟨hj, c, hm⟩ := h
      exact ⟨hj, c, hm.congr (hmaking hm rfl)⟩
  | dup child i j =>
      obtain ⟨hj, hv, hne, c, hm⟩ := h
      exact ⟨hj, hv, hsome _ hv hne, c, hm.congr (hmaking hm rfl)⟩
  | map child i j perm again =>
      obtain ⟨hj, hv, ⟨w, hw, hdup⟩, c, hm⟩ := h
      exact ⟨hj, hv, ⟨w, (hsent _ hv rfl).trans hw, hdup⟩, c, hm.congr (hmaking hm rfl)⟩
  | remap child i j perm =>
      obtain ⟨hj, hv, c, w, wc, hva, hw, hdup, hwc, hf, hflags, hm⟩ := h
      exact ⟨hj, hv, c, w, wc, hva, (hsent _ hv rfl).trans hw, hdup,
        ((hmaking hm rfl).entry _ hv).trans hwc, hf, hflags, hm.congr (hmaking hm rfl)⟩
  | setEntry child | setStatus child =>
      obtain ⟨c, n, hm⟩ := h
      exact ⟨c, n, hm.congr (hmaking hm rfl)⟩

/-- A page that is being sent is one of a child in the making. -/
lemma not_sending_of_runs (hp : x.Runs p) : ¬ x.Sending p v := by
  rintro ⟨q, child, i, j, perm, hpc, hid, -⟩
  exact hp.made q ⟨_, child, hpc, rfl, hid⟩

/-! ## One entry of a process that runs -/

section

variable (hk : KInv T x.k) (hgap : T.gap = true) (h : Ok x)
include h

variable (x') in
/-- A process that runs sets one entry, and it is none that a call of `fork` is at work on. -/
lemma forks_remapped (hset : x.k.Remapped x'.k e va o) (he : x.Runs e)
    (hmembers : x'.members = x.members) (hforks : x'.forks = x.forks)
    (hwhere : ∀ pc, x.forks e = some pc → o ≠ none ∧ sent pc ≠ some (VPN va).toNat) :
    ∀ p pc, x'.forks p = some pc → p ∈ x'.members ∧ At x' p pc := by
  intro p pc hpc
  rw [hforks] at hpc
  obtain ⟨hp, hat⟩ := h.forks p pc hpc
  have hlive := h.pages.live p hp
  refine ⟨hmembers ▸ hp, hat.congr hpc (fun c hc hm => ?_)
    (fun v hv hne => ?_) fun v hv hsent => ?_⟩
  · have hce : c ≠ e := fun hce => he.made p (hce ▸ hm)
    refine ⟨hmembers ▸ hc, by rw [hset.envs_eq], by rw [hset.envs_eq], by rw [hset.envs_eq],
      by rw [hforks], fun v hv => ?_⟩
    rw [pageEntry_remapped hset (h.pages.live c hc) hv, if_neg fun hc' => hce hc'.1]
  · rw [pageEntry_remapped hset hlive hv]
    split_ifs with hc
    · exact (hwhere pc (hc.1 ▸ hpc)).1
    · exact hne
  · rw [pageEntry_remapped hset hlive hv]
    refine if_neg fun hc => ?_
    exact (hwhere pc (hc.1 ▸ hpc)).2 (hc.2 ▸ hsent)

include hk hgap

variable (x') in
/-- **A process that runs gets a page that was free.** -/
lemma fresh_step (hset : x.k.Remapped x'.k p va (some w)) (hp : x.Runs p)
    (hva : IsPage (VPN va).toNat) (hmembers : x'.members = x.members) (hforks : x'.forks = x.forks)
    (hwhere : ∀ pc, x.forks p = some pc → sent pc ≠ some (VPN va).toNat)
    (hfree : pteFrame w ∈ x.k.pm.pageFreeList) :
    Pages x'.k x'.members ∧ (∀ p pc, x'.forks p = some pc → p ∈ x'.members ∧ At x' p pc) ∧
      x.view.Fresh (pteFrame w) ∧
      x.view.Sets x'.view p (VPN va).toNat (some (pteFrame w, flagsOf w)) ∧
      x.view.Keeps x'.view := by
  refine ⟨?_, forks_remapped x' h hset hp hmembers hforks fun pc hpc => ⟨by simp, hwhere pc hpc⟩,
    fresh_of_free hk hgap h.pages hfree,
    view_sets x' h.pages hset hp.mem hva hmembers hforks (not_sending_of_runs hp),
    keeps_of_maps h.pages fun f hf => mem_of_remapped hk hgap hset f hf⟩
  rw [hmembers]
  refine h.pages.remapped hk hgap hset hp.mem hva fun w' hw' => .inl ?_
  obtain rfl := Option.some.inj hw'
  exact hfree

omit hk hgap h in
/-- The bytes of a page that is zero. -/
lemma pageOf_zero {g : ℕ → Word} (hg : ∀ i, g i = 0#32) : pageOf g = fun _ => 0#8 := by
  funext i
  rw [pageOf, pageByte, hg]
  simp [Bits.byte]

omit hk hgap in
/-- What is to be shown of a step. -/
lemma Ok.next {act : Act} (hpages : Pages x'.k x'.members)
    (hforks : ∀ p pc, x'.forks p = some pc → p ∈ x'.members ∧ At x' p pc)
    (hstep : Frames.Step x.view x'.view act) : Ok x' ∧ Frames.Step x.view x'.view act :=
  ⟨⟨hpages, hforks, h.sound.step hstep⟩, hstep⟩

omit hk hgap h in
lemma At.sent_entry (hat : At x p pc) (hs : sent pc = some v) : x.k.pageEntry p v ≠ none := by
  cases pc with
  | map child i j perm again =>
      obtain ⟨-, -, ⟨w, hw, -⟩, -⟩ := hat
      obtain rfl := Option.some.inj hs
      simp [hw]
  | remap child i j perm =>
      obtain ⟨-, -, c, w, wc, -, hw, -⟩ := hat
      obtain rfl := Option.some.inj hs
      simp [hw]
  | _ => cases hs

/-- **A demand fault.** -/
lemma demand_step {tf : Trapframe} (hp : x.Runs p)
    (hcause : tf.cause = CAUSE_FAULT_LOAD ∨ tf.cause = CAUSE_FAULT_STORE)
    (hva : IsPage (VPN tf.badvaddr).toNat) (hno : x.k.entry p tf.badvaddr = none)
    (hstep : MosRv.Step x.k (.trap tf) k') :
    Ok { x with k := k' } ∧ Frames.Step x.view { x with k := k' }.view
      (.touch p (VPN tf.badvaddr).toNat true fun _ => 0#8) := by
  obtain ⟨pp, hmem, hset, hzero⟩ := hstep.demand hk hgap hp.cur hcause hva.lt_UVPT hno
  have hpp := hk.pages.free_lt pp hmem
  obtain ⟨hf, -⟩ := insertedWord_spec none hpp (show PTE_W ||| PTE_U < 0x400#32 by decide)
  have hflags : flagsOf (insertedWord none pp (PTE_W ||| PTE_U)) = ⟨true, false, false⟩ := by
    rw [flagsOf_inserted none hpp (by decide)]
    rfl
  obtain ⟨hpages, hforks, hfresh, hsets, hkeeps⟩ := fresh_step { x with k := k' } hk hgap h hset
    hp hva rfl rfl (fun pc hpc hs => (h.forks p pc hpc).2.sent_entry hs
      ((pageEntry_VPN x.k p tf.badvaddr).trans hno)) (hf.symm ▸ hmem)
  rw [hf] at hfresh
  rw [hf, hflags] at hsets
  exact h.next hpages hforks (.touch rfl hfresh hsets (pageOf_zero hzero) hkeeps)

omit h in
/-- `sys_mem_alloc(0, va, perm)`. -/
lemma alloc_remapped {perm : Word} (hp : x.Runs p) (hperm : perm < 0x400#32)
    (hcall : x.k.Calls (.memAlloc 0#32 va perm) 0#32 k') :
    ∃ w, x.k.Remapped k' p va (some w) ∧ pteFrame w ∈ x.k.pm.pageFreeList ∧
      flagsOf w = flagsOf perm ∧ pageOf (k'.pm.mem (pteFrame w)) = fun _ => 0#8 := by
  obtain ⟨e, pp, he, -, hmem, hset, hzero⟩ := hcall.memAlloc hk hgap
  obtain rfl : p = e := Kernel.Resolves.unique (.self rfl hp.cur) he
  have hpp := hk.pages.free_lt pp hmem
  obtain ⟨hf, -⟩ := insertedWord_spec (x.k.entry p va) hpp (Fork.or_PTE_U_lt hperm)
  refine ⟨_, hset, hf.symm ▸ hmem, flagsOf_inserted _ hpp hperm, ?_⟩
  rw [hf]
  exact pageOf_zero hzero

/-- **A page of the process's own is allocated.** -/
lemma alloc_step {perm : Word} (hp : x.Runs p) (hidle : x.forks p = none)
    (hva : IsPage (VPN va).toNat) (hperm : perm < 0x400#32) (hown : ¬ HasFlag perm PTE_LIBRARY)
    (hcall : x.k.Calls (.memAlloc 0#32 va perm) 0#32 k') :
    Ok { x with k := k' } ∧ Frames.Step x.view { x with k := k' }.view
      (.touch p (VPN va).toNat (flagsOf perm).stores fun _ => 0#8) := by
  obtain ⟨w, hset, hfree, hflags, hzero⟩ := alloc_remapped hk hgap hp hperm hcall
  obtain ⟨hpages, hforks, hfresh, hsets, hkeeps⟩ := fresh_step { x with k := k' } hk hgap h hset
    hp hva rfl rfl (fun pc hpc => absurd (hidle.symm.trans hpc) (by simp)) hfree
  rw [hflags] at hsets
  exact h.next hpages hforks (.touch (by simpa [flagsOf] using hown) hfresh hsets hzero hkeeps)

/-- **A page to be shared is allocated.** -/
lemma allocShared_step {perm : Word} (hp : x.Runs p) (hidle : x.forks p = none)
    (hva : IsPage (VPN va).toNat) (hperm : perm < 0x400#32) (hshared : HasFlag perm PTE_LIBRARY)
    (hcow : ¬ HasFlag perm PTE_COW) (hcall : x.k.Calls (.memAlloc 0#32 va perm) 0#32 k')
    (hf : (k'.entry p va).map pteFrame = some f) :
    Ok { x with k := k' } ∧ Frames.Step x.view { x with k := k' }.view
      (.link p (VPN va).toNat (flagsOf perm).stores f fun _ => 0#8) := by
  obtain ⟨w, hset, hfree, hflags, hzero⟩ := alloc_remapped hk hgap hp hperm hcall
  obtain ⟨hpages, hforks, hfresh, hsets, hkeeps⟩ := fresh_step { x with k := k' } hk hgap h hset
    hp hva rfl rfl (fun pc hpc => absurd (hidle.symm.trans hpc) (by simp)) hfree
  rw [hset.entry_self (h.pages.live p hp.mem) hva.isOwnVa, Option.map_some] at hf
  obtain rfl := Option.some.inj hf
  rw [hflags] at hsets
  exact h.next hpages hforks (.link (by simpa [flagsOf] using hshared)
    (by simpa [flagsOf] using hcow)
    (fun q u b hc => absurd hc hfresh.ne) hsets hzero hkeeps)

/-- **A page that is shared is mapped once more.** -/
lemma share_step {srcva perm : Word} (hp : x.Runs p) (hidle : x.forks p = none)
    (hsrc : IsPage (VPN srcva).toNat) (hw : x.k.entry p srcva = some w)
    (hlib : HasFlag w PTE_LIBRARY)
    (hva : IsPage (VPN va).toNat) (hperm : perm < 0x400#32) (hshared : HasFlag perm PTE_LIBRARY)
    (hcow : ¬ HasFlag perm PTE_COW) (hcall : x.k.Calls (.memMap 0#32 srcva 0#32 va perm) 0#32 k') :
    Ok { x with k := k' } ∧ Frames.Step x.view { x with k := k' }.view
      (.link p (VPN va).toNat (flagsOf perm).stores (pteFrame w)
        (pageOf (x.k.pm.mem (pteFrame w)))) := by
  obtain ⟨e, e', w', he, he', -, -, hw', hset⟩ := hcall.memMap hk hgap
  obtain rfl : p = e := Kernel.Resolves.unique (.self rfl hp.cur) he
  obtain rfl : p = e' := Kernel.Resolves.unique (.self rfl hp.cur) he'
  obtain rfl := Option.some.inj (hw.symm.trans hw')
  have hlive := h.pages.live p hp.mem
  have hmaps : x.k.Maps (pteFrame w) := ⟨p, srcva, w, hlive, hsrc.isOwnVa, hw, rfl⟩
  have hpp := T.lt_max (Kernel.Maps.mem_pool hk hgap hmaps)
  obtain ⟨hf, -⟩ := insertedWord_spec (x.k.entry p va) hpp (Fork.or_PTE_U_lt hperm)
  have hflags := flagsOf_inserted (x.k.entry p va) hpp hperm
  have hlib' : HasFlag (insertedWord (x.k.entry p va) (pteFrame w) (perm ||| PTE_U))
      PTE_LIBRARY := by
    have hs := congrArg Flags.shared hflags
    simpa [flagsOf, hshared] using hs
  have hpages : Pages k' x.members := h.pages.remapped hk hgap hset hp.mem hva fun w' hw' => by
    obtain rfl := Option.some.inj hw'
    exact .inr ⟨p, srcva, w, hp.mem, hsrc, hw, hf.symm, iff_of_true hlib' hlib⟩
  have hsets := view_sets { x with k := k' } h.pages hset hp.mem hva rfl rfl
    (not_sending_of_runs hp)
  rw [Option.map_some, hf, hflags] at hsets
  have hview : x.view.entry p (VPN srcva).toNat = some (pteFrame w, flagsOf w) := by
    rw [view_entry hp.mem hsrc (not_sending_of_runs hp), pageEntry_VPN, hw, Option.map_some]
  refine h.next hpages (forks_remapped { x with k := k' } h hset hp rfl rfl
    fun pc hpc => absurd (hidle.symm.trans hpc) (by simp)) (.link (by simpa [flagsOf] using hshared)
    (by simpa [flagsOf] using hcow) (fun q u b hc => ?_) hsets ?_ ?_)
  · rw [← h.sound.agree _ _ _ _ _ _ _ hview hc]
    simpa [flagsOf] using hlib
  · exact congrArg pageOf (mem_of_remapped hk hgap hset _ hmaps)
  · exact keeps_of_maps h.pages fun f hf => mem_of_remapped hk hgap hset f hf

/-- **A page is given up.** -/
lemma unmap_step (hinv : EnvInv x.k) (hp : x.Runs p) (hidle : x.forks p = none)
    (hva : IsPage (VPN va).toNat) (hcall : x.k.Calls (.memUnmap 0#32 va) 0#32 k') :
    Ok { x with k := k' } ∧ Frames.Step x.view { x with k := k' }.view
      (.drop fun q u => q = p ∧ u = (VPN va).toNat) := by
  obtain ⟨e, he, -, hset⟩ := hcall.memUnmap hk hgap hinv
  obtain rfl : p = e := Kernel.Resolves.unique (.self rfl hp.cur) he
  have hsets := view_sets { x with k := k' } h.pages hset hp.mem hva rfl rfl
    (not_sending_of_runs hp)
  refine h.next (h.pages.remapped hk hgap hset hp.mem hva (by simp))
    (forks_remapped { x with k := k' } h hset hp rfl rfl
      fun pc hpc => absurd (hidle.symm.trans hpc) (by simp)) (.drop ?_ hsets.2 ?_)
  · rintro q u ⟨rfl, rfl⟩
    exact hsets.1
  · exact keeps_of_maps h.pages fun f hf => mem_of_remapped hk hgap hset f hf

end

/-! ## Steps that leave the mappings alone -/

/-- The processes and their mappings are the same. -/
structure Steady (x x' : State) : Prop where
  members : x'.members = x.members
  family : Fork.Family x.k x'.k
  entry : ∀ q va, x.k.Live q → IsOwnVa va → x'.k.entry q va = x.k.entry q va

namespace Steady

variable (hs : Steady x x')
include hs

lemma live_iff : x'.k.Live q ↔ x.k.Live q := not_congr (hs.family.free q)

lemma pageEntry (hq : x.k.Live q) (hv : IsPage v) : x'.k.pageEntry q v = x.k.pageEntry q v :=
  hs.entry q _ hq (isOwnVa_page hv)

lemma pages (h : Pages x.k x.members) : Pages x'.k x'.members := by
  have hlive : ∀ {q}, x'.k.Live q → x.k.Live q := fun hq => hs.live_iff.mp hq
  rw [hs.members]
  refine ⟨fun p hp => hs.live_iff.mpr (h.live p hp), fun p hp y hlo hhi => ?_, fun p hp => ?_,
    fun p hp wx hwx q y w hq hy hw => ?_, fun p hp y w hy hw hlib q y' w' hq hy' hw' => ?_⟩
  · rw [hs.entry p y (h.live p hp) (isOwnVa_window hlo hhi)]
    exact h.window p hp y hlo hhi
  · rw [hs.entry p _ (h.live p hp) (isOwnVa_of_lt (by decide))]
    exact h.scratch p hp
  · rw [hs.entry p _ (h.live p hp) isOwnVa_XSTACK] at hwx
    rw [hs.entry q y (hlive hq) hy] at hw
    exact h.xstack p hp wx hwx q y w (hlive hq) hy hw
  · rw [hs.entry p y (h.live p hp) hy.isOwnVa] at hw
    rw [hs.entry q y' (hlive hq) hy'] at hw'
    exact h.own p hp y w hy hw hlib q y' w' (hlive hq) hy' hw'

/-- The child is the same. -/
lemma same (h : Pages x.k x.members) (hc : c ∈ x.members) (hidle : x'.forks c = x.forks c) :
    Same x x' p c :=
  ⟨hs.members ▸ hc, hs.family.envId c, hs.family.envParentId c, hs.family.envId p, hidle,
    fun _ hv => hs.pageEntry (h.live c hc) hv⟩

/-- A call of `fork` is where it was. -/
lemma at_congr (h : Ok x) (hpc : x.forks p = some pc)
    (hidle : ∀ c, c ∈ x.members → x.Makes p c → x'.forks c = x.forks c) : At x' p pc := by
  obtain ⟨hp, hat⟩ := h.forks p pc hpc
  have hentry : ∀ v, IsPage v → x'.k.pageEntry p v = x.k.pageEntry p v :=
    fun v hv => hs.pageEntry (h.pages.live p hp) hv
  exact hat.congr hpc (fun c hc hm => hs.same h.pages hc (hidle c hc hm))
    (fun v hv hne => (hentry v hv).symm ▸ hne) fun v hv _ => hentry v hv

lemma forks (h : Ok x) (hforks : x'.forks = x.forks) :
    ∀ p pc, x'.forks p = some pc → p ∈ x'.members ∧ At x' p pc := by
  intro p pc hpc
  rw [hforks] at hpc
  exact ⟨hs.members ▸ (h.forks p pc hpc).1, hs.at_congr h hpc fun c _ _ => by rw [hforks]⟩

lemma view_entry (h : Pages x.k x.members) (hsend : ∀ q v, x'.Sending q v ↔ x.Sending q v) :
    x'.view.entry = x.view.entry := by
  funext q v
  exact view_entry_congr (by rw [hs.members]) (fun _ _ => hsend q v)
    fun hq hv _ => hs.pageEntry (h.live q hq) hv

lemma view_entry_forks (h : Pages x.k x.members) (hforks : x'.forks = x.forks) :
    x'.view.entry = x.view.entry :=
  hs.view_entry h fun q _ => sending_congr hforks (hs.family.envId q)

end Steady

/-- **A step that leaves the pages alone.** -/
lemma idle_step (h : Ok x) (hpm : k'.pm = x.k.pm) (hfam : Fork.Family x.k k') :
    Ok { x with k := k' } ∧ Frames.Step x.view { x with k := k' }.view .idle := by
  have hs : Steady x { x with k := k' } := ⟨rfl, hfam, fun q va _ _ => by
    rw [Kernel.entry, Kernel.entry, hpm, hfam.envPgdir]⟩
  refine h.next (hs.pages h.pages) (hs.forks h rfl) (.idle (hs.view_entry_forks h.pages rfl) ?_)
  intro q u g a _
  exact congrArg (fun m : Pmap => pageOf (m.mem g)) hpm

lemma pageOf_congr {g g' : ℕ → Word} (hg : ∀ i < 1024, g i = g' i) : pageOf g = pageOf g' := by
  funext i
  have hi := i.isLt
  rw [pageOf, pageOf, pageByte, pageByte, hg _ (by omega)]

/-- **A store.** -/
lemma store_step {b : BitVec 8} (hk : KInv T x.k) (hgap : T.gap = true) (h : Ok x) (hp : x.Runs p)
    (hva : IsPage (VPN va).toNat) (hstep : MosRv.Step x.k (.store va b) k') :
    Ok { x with k := k' } ∧ Frames.Step x.view { x with k := k' }.view
      (.store p (VPN va).toNat fun g =>
        Function.update g ⟨va.toNat % 4096, Nat.mod_lt _ (by decide)⟩ b) := by
  obtain ⟨w, g, hw, hW, rfl, hg⟩ := hstep.store hk hp.cur
  have hlive := h.pages.live p hp.mem
  have hmaps : x.k.Maps (pteFrame w) := ⟨p, va, w, hlive, hva.isOwnVa, hw, rfl⟩
  have hs : Steady x { x with k := x.k.withPage (pteFrame w) g } :=
    ⟨rfl, .of_envs rfl, fun q y hq hy =>
      entry_withPage hgap (Kernel.Maps.not_isTable hk hgap hmaps) hq hy⟩
  have hview : x.view.entry p (VPN va).toNat = some (pteFrame w, flagsOf w) := by
    rw [view_entry hp.mem hva (not_sending_of_runs hp), pageEntry_VPN, hw, Option.map_some]
  refine h.next (hs.pages h.pages) (hs.forks h rfl) (.store hview (by simpa [flagsOf] using hW)
    (hs.view_entry_forks h.pages rfl) ?_ fun q u f' b' _ hne => ?_)
  · change pageOf ((x.k.withPage (pteFrame w) g).pm.mem (pteFrame w)) = _
    rw [withPage_mem_self]
    funext i
    rw [pageOf, hg, Function.update_apply]
    exact if_congr ⟨fun hi => Fin.ext hi, fun hi => congrArg Fin.val hi⟩ rfl rfl
  · change pageOf ((x.k.withPage (pteFrame w) g).pm.mem f') = _
    rw [withPage_mem_of_ne hne]
    rfl

/-! ## Copies on write -/

/-- An entry after a copy on write is an old one, that of the copy, or that of a new exception
stack. -/
lemma copied_cases {w' w₁ : Word} (h : CopiedOnWrite k k' p va w) (hw' : k'.entry p va = some w')
    (hq : k.Live q) (hy : IsOwnVa y) (hw₁ : k'.entry q y = some w₁) :
    (q = p ∧ VPN y = VPN va ∧ w₁ = w') ∨
      (q = p ∧ VPN y = VPN XSTACK ∧ ¬ k.Maps (pteFrame w₁)) ∨
      (¬ (q = p ∧ VPN y = VPN va) ∧ k.entry q y = some w₁) := by
  by_cases hva : q = p ∧ VPN y = VPN va
  · obtain ⟨rfl, hvpn⟩ := hva
    rw [entry_of_VPN hvpn, hw'] at hw₁
    exact .inl ⟨rfl, hvpn, (Option.some.inj hw₁).symm⟩
  · refine .inr ?_
    by_cases hU : q = p ∧ VPN y = VPN UCOW
    · rw [hU.1, entry_of_VPN hU.2, h.scratch] at hw₁
      cases hw₁
    · by_cases hX : q = p ∧ VPN y = VPN XSTACK
      · obtain ⟨rfl, hvpn⟩ := hX
        obtain ⟨wx, hwx, -, horigin⟩ := h.xstack
        rw [entry_of_VPN hvpn, hwx] at hw₁
        obtain rfl := Option.some.inj hw₁
        rcases horigin with hold | ⟨-, hnew⟩
        · exact .inr ⟨hva, (entry_of_VPN hvpn).trans hold⟩
        · exact .inl ⟨rfl, hvpn, hnew⟩
      · refine .inr ⟨hva, ?_⟩
        rw [← h.entry q y hq hy]
        · exact hw₁
        · rintro ⟨rfl, hc | hc | hc⟩
          · exact hva ⟨rfl, hc⟩
          · exact hU ⟨rfl, hc⟩
          · exact hX ⟨rfl, hc⟩

lemma Pages.copied (h : Pages k S) (hp : p ∈ S) (hva : IsPage (VPN va).toNat)
    (hc : CopiedOnWrite k k' p va w) : Pages k' S := by
  obtain ⟨w', hw', -, -, hnew, hsole⟩ := hc.copy
  have henvs : k'.envs = k.envs := by
    obtain ⟨m, tf, rfl⟩ := hc.rest
    rfl
  have hlive : ∀ {q}, k'.Live q ↔ k.Live q := fun {q} => by rw [Kernel.Live, henvs, Kernel.Live]
  have hmaps : ∀ {q y w₁}, k.Live q → IsOwnVa y → k.entry q y = some w₁ → k.Maps (pteFrame w₁) :=
    fun hq hy hw => ⟨_, _, _, hq, hy, hw, rfl⟩
  refine ⟨fun q hq => hlive.mpr (h.live q hq), fun q hq y hlo hhi => ?_, fun q hq => ?_,
    fun q hq wx hwx r y w₁ hr hy hw₁ hf => ?_,
      fun q hq y w₁ hy hw₁ hlib r y' w₂ hr hy' hw₂ hf => ?_⟩
  · by_contra hno
    obtain ⟨w₁, hw₁⟩ := Option.ne_none_iff_exists'.mp hno
    rcases copied_cases hc hw' (h.live q hq) (isOwnVa_window hlo hhi) hw₁ with
      ⟨-, hy, -⟩ | ⟨-, hy, -⟩ | ⟨-, hw⟩
    · exact hva.ne_window hlo hy
    · have hX : XSTACK.toNat = 0x7f3ff000 := by decide
      have hU : UVPT.toNat = 0x7fc00000 := by decide
      rw [← BitVec.toNat_inj, VPN_toNat, VPN_toNat, hX] at hy
      rw [BitVec.le_def, hU] at hlo
      omega
    · rw [h.window q hq y hlo hhi] at hw
      cases hw
  · by_cases hq' : q = p
    · rw [hq', hc.scratch]
    · rw [hc.entry q UCOW (h.live q hq) (isOwnVa_of_lt (by decide)) fun hc' => hq' hc'.1]
      exact h.scratch q hq
  · rcases copied_cases hc hw' (hlive.mp hr) hy hw₁ with ⟨rfl, hvpn, rfl⟩ |
      ⟨rfl, hvpn, hno⟩ | ⟨-, hw⟩
    · -- the copy is mapped once
      have hX := hsole q XSTACK wx (h.live q hq) isOwnVa_XSTACK hwx hf.symm
      exact absurd hX.2 hva.ne_XSTACK
    · by_cases hqr : q = r
      · exact ⟨hqr.symm, hvpn⟩
      · rw [hc.entry q XSTACK (h.live q hq) isOwnVa_XSTACK fun hc' => hqr hc'.1] at hwx
        exact absurd (hf ▸ hmaps (h.live q hq) isOwnVa_XSTACK hwx) hno
    · rcases copied_cases hc hw' (h.live q hq) isOwnVa_XSTACK hwx with ⟨-, hX, -⟩ |
        ⟨-, -, hno⟩ | ⟨-, hwx'⟩
      · exact absurd hX hva.ne_XSTACK
      · exact absurd (hf ▸ hmaps (hlive.mp hr) hy hw) hno
      · exact h.xstack q hq wx hwx' r y w₁ (hlive.mp hr) hy hw hf
  · rcases copied_cases hc hw' (h.live q hq) hy.isOwnVa hw₁ with ⟨rfl, hvpn, rfl⟩ |
      ⟨-, hX, -⟩ | ⟨-, hw⟩
    · obtain ⟨rfl, hvpn'⟩ := hsole r y' w₂ (hlive.mp hr) hy' hw₂ hf
      exact ⟨hq, hvpn' ▸ hva⟩
    · exact absurd hX.symm hy.ne_XSTACK
    · rcases copied_cases hc hw' (hlive.mp hr) hy' hw₂ with ⟨rfl, hvpn', -⟩ |
        ⟨-, -, hno⟩ | ⟨-, hw'₂⟩
      · exact ⟨hp, hvpn' ▸ hva⟩
      · exact absurd (hf ▸ hmaps (h.live q hq) hy.isOwnVa hw) hno
      · exact h.own q hq y w₁ hy hw hlib r y' w₂ (hlive.mp hr) hy' hw'₂ hf

/-- **A store fault, and `cow_entry`.** -/
lemma copy_step {cow : Word} {frame : Syscall → Trapframe} {tf : Trapframe} {b : Bool}
    (hk : KInv T x.k) (hgap : T.gap = true) (h : Ok x) (hframe : ∀ c, (frame c).Calls c)
    (hp : x.Runs p) (hva : IsPage (VPN tf.badvaddr).toNat) (hfault : CowFault x.k p cow tf w)
    (hfork : ∀ child i j perm again, x.forks p = some (.map child i j perm again) →
      (VPN tf.badvaddr).toNat ≠ i * 1024 + j)
    (hrun : trapToCow cow frame tf x.k = .ok b k') :
    Ok { x with k := k' } ∧ Frames.Step x.view { x with k := k' }.view
      (.copy p (VPN tf.badvaddr).toNat) := by
  obtain ⟨k₁, hrun', -, hc, -, -⟩ := trapToCow_run hk hgap hfault hframe
  obtain rfl : k' = k₁ := by
    rw [hrun] at hrun'
    cases hrun'
    rfl
  obtain ⟨w', hw', hbits, hbytes, hnew, -⟩ := hc.copy
  have henvs : k'.envs = x.k.envs := by
    obtain ⟨m, tf', rfl⟩ := hc.rest
    rfl
  have hlive := h.pages.live p hp.mem
  have hpages := h.pages.copied hp.mem hva hc
  have hentry : ∀ q v, x.k.Live q → IsPage v → ¬ (q = p ∧ v = (VPN tf.badvaddr).toNat) →
      k'.pageEntry q v = x.k.pageEntry q v := by
    intro q v hq hv hne
    refine hc.entry q _ hq (isOwnVa_page hv) ?_
    have hpage : IsPage (VPN (BitVec.ofNat 32 v <<< 12)).toNat := (VPN_pageVa hv).symm ▸ hv
    rintro ⟨hq', hv' | hv' | hv'⟩
    · exact hne ⟨hq', by rw [← hv', VPN_pageVa hv]⟩
    · exact hpage.ne_UCOW hv'.symm
    · exact hpage.ne_XSTACK hv'.symm
  have hself : k'.pageEntry p (VPN tf.badvaddr).toNat = some w' := (pageEntry_VPN k' p _).trans hw'
  have hwas : x.k.pageEntry p (VPN tf.badvaddr).toNat = some w :=
    (pageEntry_VPN x.k p _).trans hfault.entry
  have hsend : ∀ q v, State.Sending { x with k := k' } q v ↔ x.Sending q v :=
    fun q v => sending_congr rfl (by rw [henvs])
  have hview : x.view.entry p (VPN tf.badvaddr).toNat = some (pteFrame w, flagsOf w) := by
    rw [view_entry hp.mem hva (not_sending_of_runs hp), hwas, Option.map_some]
  refine h.next hpages (fun q pc hpc => ?_) (.copy hview (by simpa [flagsOf] using hfault.toCopy) ?_
    ⟨?_, fun q v hne => ?_⟩ (pageOf_congr hbytes) ?_)
  · obtain ⟨hq, hat⟩ := h.forks q pc hpc
    refine ⟨hq, hat.congr hpc (fun c hc' hm => ?_) (fun v hv hne => ?_) fun v hv hsent => ?_⟩
    · have hcp : c ≠ p := fun hcp => hp.made q (hcp ▸ hm)
      exact ⟨hc', congrArg Env.envId (congrFun henvs c),
        congrArg Env.envParentId (congrFun henvs c),
        congrArg Env.envId (congrFun henvs q), rfl,
        fun v hv => hentry c v (h.pages.live c hc') hv fun hc'' => hcp hc''.1⟩
    · by_cases hqv : q = p ∧ v = (VPN tf.badvaddr).toNat
      · rw [hqv.1, hqv.2, hself]
        simp
      · rw [hentry q v (h.pages.live q hq) hv hqv]
        exact hne
    · refine hentry q v (h.pages.live q hq) hv ?_
      rintro ⟨rfl, rfl⟩
      cases pc with
      | map child i j perm again =>
          exact hfork child i j perm again hpc (Option.some.inj hsent).symm
      | remap child i j perm =>
          obtain ⟨-, -, c, w₁, -, -, hw₁, hdup, -⟩ := hat
          rw [Option.some.inj hsent, hwas] at hw₁
          obtain rfl := Option.some.inj hw₁
          exact hfault.readOnly (duppage_again.mp (congrArg Prod.snd hdup)).1
      | _ => cases hsent
  · exact fun q u f a hq hf => hnew (hf ▸ maps_of_view h.pages hq)
  · rw [view_entry (x := { x with k := k' }) hp.mem hva
      (mt (hsend _ _).mp (not_sending_of_runs hp)),
      hself, Option.map_some, flagsOf_copied hbits]
  · exact view_entry_congr Iff.rfl (fun _ _ => hsend q v)
      fun hq hv _ => hentry q v (h.pages.live q hq) hv hne
  · intro q u f a hq
    obtain ⟨hq', hu, -, w₁, hw₁, rfl, -⟩ := of_view_entry hq
    refine congrArg pageOf (hc.mem _ (maps_of_view h.pages hq) fun wx hwx hf => ?_)
    have hX := h.pages.xstack p hp.mem wx hwx q _ w₁ (h.pages.live q hq') (isOwnVa_page hu) hw₁ hf
    have hpage : IsPage (VPN (BitVec.ofNat 32 u <<< 12)).toNat := (VPN_pageVa hu).symm ▸ hu
    exact hpage.ne_XSTACK hX.2.symm

/-! ## The other envs -/

lemma Pages.private_own (h : Pages k S) (hp : p ∈ S) (hva : IsPage (VPN va).toNat)
    (hw : k.entry p va = some w) (hlib : ¬ HasFlag w PTE_LIBRARY) : k.Private S (pteFrame w) :=
  ⟨⟨p, va, w, hp, hva.isOwnVa, hw, rfl⟩, fun e y w' he hl hy hw' hf =>
    he (h.own p hp va w hva hw hlib e y w' hl hy hw' hf).1⟩

lemma Pages.private_xstack (h : Pages k S) (hp : p ∈ S) (hw : k.entry p XSTACK = some w) :
    k.Private S (pteFrame w) :=
  ⟨⟨p, XSTACK, w, hp, isOwnVa_XSTACK, hw, rfl⟩, fun e y w' he hl hy hw' hf =>
    he ((h.xstack p hp w hw e y w' hl hy hw' hf).1 ▸ hp)⟩

lemma Pages.spared (h : Pages k S) (hs : k.Spares S k') : Pages k' S := by
  -- an entry that names a page of theirs is one of theirs
  have hcase : ∀ {f q y w}, k.Private S f → k'.Live q → IsOwnVa y → k'.entry q y = some w →
      pteFrame w = f → q ∈ S ∧ k.entry q y = some w := by
    intro f q y w hf hq hy hw hwf
    have hqS : q ∈ S := by
      by_contra hno
      exact (hs.priv f hf).other q y w hno hq hy hw hwf
    exact ⟨hqS, (hs.entry q hqS y hy).symm.trans hw⟩
  refine ⟨hs.live h.live, fun p hp y hlo hhi => ?_, fun p hp => ?_,
    fun p hp wx hwx q y w hq hy hw hf => ?_, fun p hp y w hy hw hlib q y' w' hq hy' hw' hf => ?_⟩
  · rw [hs.entry p hp y (isOwnVa_window hlo hhi)]
    exact h.window p hp y hlo hhi
  · rw [hs.entry p hp _ (isOwnVa_of_lt (by decide))]
    exact h.scratch p hp
  · rw [hs.entry p hp _ isOwnVa_XSTACK] at hwx
    obtain ⟨hqS, hw₀⟩ := hcase (h.private_xstack hp hwx) hq hy hw hf
    exact h.xstack p hp wx hwx q y w (h.live q hqS) hy hw₀ hf
  · rw [hs.entry p hp y hy.isOwnVa] at hw
    obtain ⟨hqS, hw₀⟩ := hcase (h.private_own hp hy hw hlib) hq hy' hw' hf
    exact h.own p hp y w hy hw hlib q y' w' (h.live q hqS) hy' hw₀ hf

/-- **Another env does something.** -/
lemma outside_step (hk : KInv T x.k) (hgap : T.gap = true) (hinv : EnvInv x.k) (h : Ok x)
    (hout : OutsideStep x.members x.k k') :
    Ok { x with k := k' } ∧ Frames.Step x.view { x with k := k' }.view
      (.outside fun f => pageOf (k'.pm.mem f)) := by
  obtain ⟨c, ev, hr, hadm, hsend, hstep⟩ := hout
  have hs : x.k.Spares x.members k' := hstep.spares hk hinv hgap hr hadm hsend
  have hid : ∀ q ∈ x.members, (k'.envs q).envId = (x.k.envs q).envId ∧
      (k'.envs q).envParentId = (x.k.envs q).envParentId := by
    intro q hq
    obtain ⟨r, hr⟩ := hs.env q hq
    rw [hr]
    exact ⟨rfl, rfl⟩
  have hentry : ∀ q ∈ x.members, ∀ v, IsPage v → k'.pageEntry q v = x.k.pageEntry q v :=
    fun q hq v hv => hs.entry q hq _ (isOwnVa_page hv)
  have hview : (State.view { x with k := k' }).entry = x.view.entry := by
    funext q v
    exact view_entry_congr Iff.rfl (fun hq _ => sending_congr rfl (hid q hq).1)
      fun hq hv _ => hentry q hq v hv
  refine h.next (h.pages.spared hs) (fun q pc hpc => ?_)
    (.outside hview (fun _ _ _ _ _ _ => rfl) ?_)
  · obtain ⟨hq, hat⟩ := h.forks q pc hpc
    exact ⟨hq, hat.congr hpc (fun c hc hm => ⟨hc, (hid c hc).1, (hid c hc).2, (hid q hq).1, rfl,
      hentry c hc⟩) (fun v hv hne => (hentry q hq v hv).symm ▸ hne) fun v hv _ => hentry q hq v hv⟩
  · intro q u f a hqu ha
    obtain ⟨hq, hu, -, w, hw, rfl, rfl⟩ := of_view_entry hqu
    have hpage : IsPage (VPN (BitVec.ofNat 32 u <<< 12)).toNat := (VPN_pageVa hu).symm ▸ hu
    refine congrArg pageOf (hs.mem _ (h.pages.private_own hq hpage hw ?_))
    simpa [flagsOf] using ha

/-! ## Exits -/

lemma Pages.ended (h : Pages k S) (hend : k.Ended p k') : Pages k' (S \ {p}) := by
  have hentry : ∀ {q y}, q ∈ S \ {p} → IsOwnVa y → k'.entry q y = k.entry q y :=
    fun hq hy => hend.entry _ hq.2 (h.live _ hq.1) _ hy
  refine ⟨fun q hq => ?_, fun q hq y hlo hhi => ?_, fun q hq => ?_,
    fun q hq wx hwx r y w hr hy hw hf => ?_, fun q hq y w hy hw hlib r y' w' hr hy' hw' hf => ?_⟩
  · obtain ⟨r, hr⟩ := hend.env q hq.2
    rw [Kernel.Live, hr]
    exact h.live q hq.1
  · rw [hentry hq (isOwnVa_window hlo hhi)]
    exact h.window q hq.1 y hlo hhi
  · rw [hentry hq (isOwnVa_of_lt (by decide))]
    exact h.scratch q hq.1
  · obtain ⟨hne, hl⟩ := hend.live hr
    rw [hentry hq isOwnVa_XSTACK] at hwx
    rw [hend.entry r hne hl y hy] at hw
    exact h.xstack q hq.1 wx hwx r y w hl hy hw hf
  · obtain ⟨hne, hl⟩ := hend.live hr
    rw [hentry hq hy.isOwnVa] at hw
    rw [hend.entry r hne hl y' hy'] at hw'
    obtain ⟨hrS, hpage⟩ := h.own q hq.1 y w hy hw hlib r y' w' hl hy' hw' hf
    exact ⟨⟨hrS, hne⟩, hpage⟩

/-- **A process ends.** -/
lemma exit_step {tf : Trapframe} (hk : KInv T x.k) (hgap : T.gap = true) (h : Ok x) (hp : x.Runs p)
    (hidle : x.forks p = none) (hcall : tf.Calls (.envDestroy 0#32))
    (hstep : MosRv.Step x.k (.trap tf) k') :
    Ok { x with k := k', members := x.members \ {p} } ∧
      Frames.Step x.view { x with k := k', members := x.members \ {p} }.view
        (.drop fun q _ => q = p) := by
  have hend := hstep.destroySelf hk hgap hp.cur hcall
  have hid : ∀ q ≠ p, (k'.envs q).envId = (x.k.envs q).envId ∧
      (k'.envs q).envParentId = (x.k.envs q).envParentId := by
    intro q hq
    obtain ⟨r, hr⟩ := hend.env q hq
    rw [hr]
    exact ⟨rfl, rfl⟩
  have hentry : ∀ q ∈ x.members, q ≠ p → ∀ v, IsPage v → k'.pageEntry q v = x.k.pageEntry q v :=
    fun q hq hne v hv => hend.entry q hne (h.pages.live q hq) _ (isOwnVa_page hv)
  refine h.next (h.pages.ended hend) (fun q pc hpc => ?_)
    (.drop (fun q u hq => ?_) (fun q u hq => ?_) ?_)
  · obtain ⟨hq, hat⟩ := h.forks q pc hpc
    have hne : q ≠ p := fun hc => absurd ((hc ▸ hidle : x.forks q = none).symm.trans hpc) (by simp)
    refine ⟨⟨hq, hne⟩, hat.congr hpc (fun c hc hm => ?_)
      (fun v hv hsome => (hentry q hq hne v hv).symm ▸ hsome) fun v hv _ => hentry q hq hne v hv⟩
    have hcp : c ≠ p := fun hcp => hp.made q (hcp ▸ hm)
    exact ⟨⟨hc, hcp⟩, (hid c hcp).1, (hid c hcp).2, (hid q hne).1, rfl, hentry c hc hcp⟩
  · exact view_entry_none fun hc => hc.1.2 hq
  · exact view_entry_congr (and_iff_left hq) (fun _ _ => sending_congr rfl (hid q hq).1)
      fun hm hv _ => hentry q hm hq u hv
  · exact keeps_of_maps h.pages fun f hf => hend.mem f (Kernel.Maps.not_isTable hk hgap hf)

end

end Relatives

end MosRv
