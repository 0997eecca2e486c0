import MosRv.User.RelativesSteps

/-!
# The steps of `fork`, for related processes

`sys_exofork` makes a process without pages.  `duppage` gives it a page at a time: a page that the
parent cannot store to, or shares on purpose, with one call (`map_step`); any other with two, and
the child's page is not seen until the parent's is marked as well (`map_again_step`, `remap_step`).
All other steps leave the pages alone (`fork_step`).
-/

namespace MosRv

open Prog CopyOnWrite

namespace Relatives

section

variable {mc : Machine} {T : Template} {k k' : Kernel} {S : Set ℕ} {x x' : State}
  {e p q c c' v n n' f : ℕ} {va y w child child' cow : Word} {o : Option Word} {pc pc' : Fork.Pc}

/-! ## The entries that `fork` reads -/

/-- **`vpt` shows the entry of a page.** -/
lemma pageEntry_eq_vptWord (h : Pages k S) (hp : p ∈ S) (hv : v < (VPN UTOP).toNat) :
    k.pageEntry p v = validWord (k.vptWord (k.envs p).envPgdir v) := by
  have hin : UVPT ≤ vpt (BitVec.ofNat 32 v) ∧ vpt (BitVec.ofNat 32 v) < ULIM := by
    refine vpt_inWindow ?_
    have hU : (VPN UTOP).toNat = 0x7f400 := by decide
    have hV : (VPN UVPT).toNat = 0x7fc00 := by decide
    rw [BitVec.lt_def, hV, BitVec.toNat_ofNat]
    omega
  have hno : k.pm.readable (k.envs p).envPgdir (vpt (BitVec.ofNat 32 v)) = none := by
    have hentry : k.pm.entryAt (k.envs p).envPgdir (vpt (BitVec.ofNat 32 v)) = none :=
      h.window p hp _ hin.1 hin.2
    rw [Pmap.readable, hentry]
    rfl
  rw [Kernel.vptWord, Kernel.windowWord, hno, Option.getD_none, Kernel.pageEntry, Pmap.entryAt]
  cases k.pm.walk (k.envs p).envPgdir (BitVec.ofNat 32 v <<< 12) with
  | none => exact (validWord_of_not_valid (not_hasFlag_zero _)).symm
  | some tj => rfl

/-! ## The child -/

/-- A live env is given by its id. -/
lemma envId_inj (hinv : EnvInv k) (hp : k.Live p) (hq : k.Live q)
    (hid : (k.envs p).envId = (k.envs q).envId) : p = q := by
  rw [← (hinv.live_id p hp).2, hid, (hinv.live_id q hq).2]

lemma Making.isChild (h : Making x p c child n) (hx : Pages x.k x.members) (hp : x.Runs p) :
    Fork.IsChild x.k p c child :=
  ⟨hp.cur, h.ne, h.slot, h.ne_zero, hx.live c h.mem, h.envId, h.envParentId⟩

lemma Making.resolves (h : Making x p c child n) (hinv : EnvInv x.k) (hx : Pages x.k x.members)
    (hp : x.Runs p) : x.k.Resolves child true c := (h.isChild hx hp).resolves hinv

lemma Making.envx (h : Making x p c child n) (hinv : EnvInv x.k) (hx : Pages x.k x.members)
    (hp : x.Runs p) : ENVX child = c := by
  cases h.resolves hinv hx hp with
  | self h0 _ => exact absurd h0 h.ne_zero
  | other => rfl

/-- What there is of a child in the making. -/
lemma At.making (hat : At x p pc) (hchild : childOf pc = some child) :
    ∃ c n, Making x p c child n := by
  cases pc with
  | entry | exofork | returned => cases hchild
  | pde child' i =>
      obtain ⟨c, hm⟩ := hat
      exact ⟨c, _, Option.some.inj hchild ▸ hm⟩
  | pte child' i j =>
      obtain ⟨-, c, hm⟩ := hat
      exact ⟨c, _, Option.some.inj hchild ▸ hm⟩
  | dup child' i j =>
      obtain ⟨-, -, -, c, hm⟩ := hat
      exact ⟨c, _, Option.some.inj hchild ▸ hm⟩
  | map child' i j perm again =>
      obtain ⟨-, -, -, c, hm⟩ := hat
      exact ⟨c, _, Option.some.inj hchild ▸ hm⟩
  | remap child' i j perm =>
      obtain ⟨-, -, c, w, wc, -, -, -, -, -, -, hm⟩ := hat
      exact ⟨c, _, Option.some.inj hchild ▸ hm⟩
  | setEntry child' | setStatus child' =>
      obtain ⟨c, n, hm⟩ := hat
      exact ⟨c, n, Option.some.inj hchild ▸ hm⟩

/-- **A child is made by one process.** -/
lemma unique_maker (hinv : EnvInv x.k) (h : Ok x) (hm : Making x p c child n) (hp : p ∈ x.members)
    (hq : x.Makes q c) : q = p := by
  obtain ⟨pc, child', hpc, hchild, hid⟩ := hq
  obtain ⟨hqm, hat⟩ := h.forks q pc hpc
  obtain ⟨c', n', hm'⟩ := hat.making hchild
  obtain rfl : c' = c := envId_inj hinv (h.pages.live c' hm'.mem) (h.pages.live c hm.mem)
    (hm'.envId.trans hid.symm)
  exact envId_inj hinv (h.pages.live q hqm) (h.pages.live p hp)
    (hm'.envParentId.symm.trans hm.envParentId)

/-! ## Steps of `fork` that map nothing -/

/-- What is being sent stays, where `p` sends nothing before and after. -/
lemma sending_update {next : Option Fork.Pc} (hforks : x'.forks = Function.update x.forks p next)
    (hold : ∀ child i j perm, x.forks p ≠ some (.remap child i j perm))
    (hnew : ∀ child i j perm, next ≠ some (.remap child i j perm))
    (hid : (x'.k.envs q).envId = (x.k.envs q).envId) : x'.Sending q v ↔ x.Sending q v := by
  rw [State.Sending, State.Sending, hforks, hid]
  refine exists_congr fun r => exists_congr fun child => exists_congr fun i => exists_congr fun j =>
    exists_congr fun perm => and_congr_left fun _ => ?_
  by_cases hr : r = p
  · rw [hr, Function.update_self]
    exact iff_of_false (hnew child i j perm) (hold child i j perm)
  · rw [Function.update_of_ne hr]

lemma steady_making (hs : Steady x x') (h : Ok x) (hpc : x.forks p = some pc)
    (hforks : x'.forks = Function.update x.forks p (some pc')) (hm : Making x p c child n) :
    Making x' p c child n := by
  refine hm.congr (hs.same h.pages hm.mem ?_)
  have hne : c ≠ p := fun hc => absurd ((hc ▸ hm.idle : x.forks p = none).symm.trans hpc) (by simp)
  rw [hforks, Function.update_of_ne hne]

/-- **`p` is at another place of `fork`**, and the pages are the same. -/
lemma quiet_step {next : Option Fork.Pc} (h : Ok x) (hp : x.Runs p) (hs : Steady x x')
    (hpm : x'.k.pm = x.k.pm) (hforks : x'.forks = Function.update x.forks p next)
    (hold : ∀ child i j perm, x.forks p ≠ some (.remap child i j perm))
    (hnew : ∀ child i j perm, next ≠ some (.remap child i j perm))
    (hat : ∀ pc', next = some pc' → At x' p pc') : Ok x' ∧ Frames.Step x.view x'.view .idle := by
  refine h.next (hs.pages h.pages) (fun q pc₁ hq => ?_) (.idle (hs.view_entry h.pages fun q v =>
    sending_update hforks hold hnew (hs.family.envId q)) fun q u g a _ => ?_)
  · rw [hforks] at hq
    by_cases hqp : q = p
    · subst hqp
      rw [Function.update_self] at hq
      exact ⟨hs.members ▸ hp.mem, hat pc₁ hq⟩
    · rw [Function.update_of_ne hqp] at hq
      refine ⟨hs.members ▸ (h.forks q pc₁ hq).1, hs.at_congr h hq fun c _ hm => ?_⟩
      have hcp : c ≠ p := fun hcp => hp.made q (hcp ▸ hm)
      rw [hforks, Function.update_of_ne hcp]
  · exact congrArg (fun m : Pmap => pageOf (m.mem g)) hpm

/-- The state after such a step. -/
def State.forked (x : State) (p : ℕ) (k : Kernel) (pc : Fork.Pc) : State where
  k := k
  members := x.members ∪ {e | ¬ x.k.Live e ∧ k.Live e}
  forks := Function.update x.forks p (some pc)

lemma forked_forks_self : (x.forked p k' pc).forks p = some pc := Function.update_self _ _ _

lemma forked_forks_of_ne (hq : q ≠ p) : (x.forked p k' pc).forks q = x.forks q :=
  Function.update_of_ne hq _ _

lemma steady_forked (hfam : Fork.Family x.k k') (hpm : k'.pm = x.k.pm) :
    Steady x (x.forked p k' pc) := by
  refine ⟨?_, hfam, fun q va _ _ => ?_⟩
  · refine Set.union_eq_self_of_subset_right ?_
    rintro e ⟨hdead, hlive⟩
    exact absurd (fun hf => hlive ((hfam.free e).mpr hf)) hdead
  · change k'.entry q va = _
    rw [Kernel.entry, Kernel.entry, hpm, hfam.envPgdir]

/-! ## `sys_exofork` -/

lemma Pages.born {S' : Set ℕ} (h : Pages k S) (hs : k.Spares {x | k.Live x} k')
    (hlive : ∀ q, k'.Live q → k.Live q ∨ q = c) (hc : k'.Live c)
    (hempty : ∀ va, IsOwnVa va → k'.entry c va = none) (hS : ∀ q, q ∈ S' ↔ q ∈ S ∨ q = c) :
    Pages k' S' := by
  -- an entry is one of an env that was live
  have hcase : ∀ {q y w}, k'.Live q → IsOwnVa y → k'.entry q y = some w →
      k.Live q ∧ k.entry q y = some w := by
    intro q y w hq hy hw
    rcases hlive q hq with hl | rfl
    · exact ⟨hl, (hs.entry q hl y hy).symm.trans hw⟩
    · rw [hempty y hy] at hw
      cases hw
  have hin : ∀ {q y w}, q ∈ S' → IsOwnVa y → k'.entry q y = some w → q ∈ S ∧
      k.entry q y = some w := by
    intro q y w hq hy hw
    rcases (hS q).mp hq with hqS | rfl
    · exact ⟨hqS, (hs.entry q (h.live q hqS) y hy).symm.trans hw⟩
    · rw [hempty y hy] at hw
      cases hw
  have hnone : ∀ {q y}, q ∈ S' → IsOwnVa y → (q ∈ S → k.entry q y = none) →
      k'.entry q y = none := by
    intro q y hq hy hno
    by_contra hsome
    obtain ⟨w, hw⟩ := Option.ne_none_iff_exists'.mp hsome
    obtain ⟨hqS, hw'⟩ := hin hq hy hw
    rw [hno hqS] at hw'
    cases hw'
  refine ⟨fun q hq => ?_, fun q hq y hlo hhi => hnone hq (isOwnVa_window hlo hhi) fun hqS =>
    h.window q hqS y hlo hhi, fun q hq => hnone hq (isOwnVa_of_lt (by decide)) (h.scratch q),
    fun q hq wx hwx r y w hr hy hw hf => ?_, fun q hq y w hy hw hlib r y' w' hr hy' hw' hf => ?_⟩
  · rcases (hS q).mp hq with hqS | rfl
    · exact hs.live (fun _ hl => hl) q (h.live q hqS)
    · exact hc
  · obtain ⟨hqS, hwx'⟩ := hin hq isOwnVa_XSTACK hwx
    obtain ⟨hl, hw'⟩ := hcase hr hy hw
    exact h.xstack q hqS wx hwx' r y w hl hy hw' hf
  · obtain ⟨hqS, hw₀⟩ := hin hq hy.isOwnVa hw
    obtain ⟨hl, hw'₀⟩ := hcase hr hy' hw'
    obtain ⟨hrS, hpage⟩ := h.own q hqS y w hy hw₀ hlib r y' w' hl hy' hw'₀ hf
    exact ⟨(hS r).mpr (.inl hrS), hpage⟩

/-- A page that is mapped is one of the live envs only. -/
lemma private_live (hf : k.Maps f) : k.Private {x | k.Live x} f := by
  obtain ⟨q, y, w, hq, hy, hw, hwf⟩ := hf
  exact ⟨⟨q, y, w, hq, hy, hw, hwf⟩, fun e _ _ he hl => absurd hl he⟩

/-- **`sys_exofork`** makes one more process, without pages. -/
lemma exofork_step {r : Word} (hk : KInv T x.k) (hgap : T.gap = true) (hinv : EnvInv x.k)
    (hhead : ∀ e rest, x.k.envFreeList = e :: rest → e < NENV) (h : Ok x) (hp : x.Runs p)
    (hpc : x.forks p = some .exofork) (hok : ¬ Fork.ForkFails x.k) (hcall : x.k.Calls .exofork r k')
    (hpc' : pc' = .returned 0#32 ∨ r ≠ 0#32 ∧ pc' = .pde r 0) :
    Ok (x.forked p k' pc') ∧ Frames.Step x.view (x.forked p k' pc').view .idle := by
  obtain ⟨c, rest, pp, prest, u, hl, hf, hpm, -, henvs, hdir, hid, hparent, hstatus⟩ :=
    hcall.exofork hp.cur hok
  have hfree : (x.k.envs c).envStatus = .free := hinv.free_free c (by simp [hl])
  have hdead : ¬ x.k.Live c := fun hc => hc hfree
  have hs : x.k.Spares {x₁ | x.k.Live x₁} k' :=
    spares_setupVm hk hgap (fun _ hl => hl) hf hfree hpm henvs hdir
  have hself : k'.envs c = u := by rw [henvs, Function.update_self]
  have hother : ∀ q ≠ c, k'.envs q = x.k.envs q :=
    fun q hq => by rw [henvs, Function.update_of_ne hq]
  have hclive : k'.Live c := by
    rw [Kernel.Live, hself]
    exact hstatus
  have hlive : ∀ q, k'.Live q → x.k.Live q ∨ q = c := by
    intro q hq
    by_cases hqc : q = c
    · exact .inr hqc
    · rw [Kernel.Live, hother q hqc] at hq
      exact .inl hq
  have hempty : ∀ va, IsOwnVa va → k'.entry c va = none := by
    intro va hva
    rw [Kernel.entry, hself, hdir, hpm]
    exact entryAt_setupVm_none hk hf hva
  have hS : ∀ q, q ∈ x.members ∪ {e | ¬ x.k.Live e ∧ k'.Live e} ↔ q ∈ x.members ∨ q = c := by
    intro q
    refine or_congr_right ⟨fun hq => (hlive q hq.2).resolve_left hq.1, ?_⟩
    rintro rfl
    exact ⟨hdead, hclive⟩
  have hcS : c ∉ x.members := fun hc => hdead (h.pages.live c hc)
  have hne : ∀ q ∈ x.members, q ≠ c := fun q hq hqc => hcS (hqc ▸ hq)
  have hentry : ∀ q ∈ x.members, ∀ v, IsPage v → k'.pageEntry q v = x.k.pageEntry q v :=
    fun q hq v hv => hs.entry q (h.pages.live q hq) _ (isOwnVa_page hv)
  have hnew : ∀ child i j perm, pc' ≠ .remap child i j perm := by
    intro child i j perm
    rcases hpc' with rfl | ⟨-, rfl⟩ <;> simp
  have hforks : ∀ q ≠ p, (x.forked p k' pc').forks q = x.forks q :=
    fun q hq => forked_forks_of_ne hq
  refine h.next (h.pages.born hs hlive hclive hempty hS) (fun q pc hq => ?_) (.idle ?_ ?_)
  · by_cases hqp : q = p
    · subst hqp
      refine ⟨(hS q).mpr (.inl hp.mem), ?_⟩
      obtain rfl := Option.some.inj (forked_forks_self.symm.trans hq)
      rcases hpc' with rfl | ⟨hr, rfl⟩
      · trivial
      · refine ⟨c, (hS c).mpr (.inr rfl), (hne q hp.mem).symm, hhead c rest hl, hr, ?_, ?_, ?_,
          fun v _ hv => hempty _ (isOwnVa_page hv)⟩
        · exact (congrArg Env.envId hself).trans hid
        · change (k'.envs c).envParentId = (k'.envs q).envId
          rw [hself, hparent, hother q (hne q hp.mem)]
        · rw [hforks c (hne q hp.mem).symm]
          by_contra hsome
          obtain ⟨pc, hc⟩ := Option.ne_none_iff_exists'.mp hsome
          exact hcS (h.forks c pc hc).1
    · rw [hforks q hqp] at hq
      obtain ⟨hqm, hat⟩ := h.forks q pc hq
      refine ⟨(hS q).mpr (.inl hqm), hat.congr hq (fun c' hc' hm => ?_)
        (fun v hv hsome => (hentry q hqm v hv).symm ▸ hsome) fun v hv _ => hentry q hqm v hv⟩
      have hcp : c' ≠ p := fun hcp => hp.made q (hcp ▸ hm)
      exact ⟨(hS c').mpr (.inl hc'), congrArg Env.envId (hother c' (hne c' hc')),
        congrArg Env.envParentId (hother c' (hne c' hc')),
          congrArg Env.envId (hother q (hne q hqm)),
        hforks c' hcp, hentry c' hc'⟩
  · funext q v
    by_cases hqc : q = c
    · rw [view_entry_none (x := x) fun hc => hcS (hqc ▸ hc.1)]
      by_cases hv : IsPage v ∧ ¬ (x.forked p k' pc').Sending q v
      · rw [view_entry ((hS q).mpr (.inr hqc)) hv.1 hv.2, hqc]
        exact congrArg _ (hempty _ (isOwnVa_page hv.1))
      · exact view_entry_none fun hc => hv hc.2
    · refine view_entry_congr ((hS q).trans (or_iff_left hqc)) (fun hq _ => ?_)
        fun hq hv _ => hentry q hq v hv
      exact sending_update rfl (fun _ _ _ _ hc => absurd (hpc.symm.trans hc) (by simp))
        (fun _ _ _ _ hc => hnew _ _ _ _ (Option.some.inj hc)) (congrArg Env.envId (hother q hqc))
  · exact keeps_of_maps h.pages fun f hf => hs.mem f (private_live hf)

/-! ## `duppage` -/

lemma forked_members (hlive : ∀ q, k'.Live q ↔ x.k.Live q) :
    (x.forked p k' pc').members = x.members := by
  refine Set.union_eq_self_of_subset_right ?_
  rintro q ⟨hdead, hl⟩
  exact absurd ((hlive q).mp hl) hdead

section

variable (hinv : EnvInv x.k) (h : Ok x) (hp : x.Runs p) (hm : Making x p c child n)
include hinv h hp hm

/-- What is being sent to `c` is what `p` sends. -/
lemma sending_child (hpc : x.forks p = some pc) {u : ℕ} :
    x.Sending c u ↔ ∃ child i j perm, pc = .remap child i j perm ∧
      (x.k.envs c).envId = child ∧ u = i * 1024 + j := by
  constructor
  · rintro ⟨q, child', i, j, perm, hq, hid, hu⟩
    obtain rfl := unique_maker hinv h hm hp.mem ⟨_, child', hq, rfl, hid⟩
    exact ⟨child', i, j, perm, Option.some.inj (hpc.symm.trans hq), hid, hu⟩
  · rintro ⟨child', i, j, perm, rfl, hid, hu⟩
    exact ⟨p, child', i, j, perm, hpc, hid, hu⟩

section

variable (hset : x.k.Remapped k' e va o)
include hset

/-- The other calls of `fork` are where they were. -/
lemma others_remapped (he : e = c ∨ e = p) (hqp : q ≠ p) {pc₁ : Fork.Pc}
    (hq : x.forks q = some pc₁) :
    q ∈ (x.forked p k' pc').members ∧ At (x.forked p k' pc') q pc₁ := by
  have hmembers : (x.forked p k' pc').members = x.members := forked_members fun q => hset.live_iff
  obtain ⟨hqm, hat⟩ := h.forks q pc₁ hq
  have hqc : q ≠ c := fun hqc => absurd ((hqc ▸ hm.idle : x.forks q = none).symm.trans hq) (by simp)
  have hqe : q ≠ e := by rcases he with rfl | rfl <;> assumption
  have hentry : ∀ r ∈ x.members, r ≠ e → ∀ v, IsPage v → k'.pageEntry r v = x.k.pageEntry r v := by
    intro r hr hre v hv
    rw [pageEntry_remapped hset (h.pages.live r hr) hv, if_neg fun hc => hre hc.1]
  refine ⟨hmembers ▸ hqm, hat.congr hq (fun c' hc' hm' => ?_)
    (fun v hv hsome => (hentry q hqm hqe v hv).symm ▸ hsome) fun v hv _ => hentry q hqm hqe v hv⟩
  have hcp : c' ≠ p := fun hcp => hp.made q (hcp ▸ hm')
  have hcc : c' ≠ c := fun hcc => hqp (unique_maker hinv h hm hp.mem (hcc ▸ hm'))
  have hce : c' ≠ e := by rcases he with rfl | rfl <;> assumption
  have henvs : ∀ r, k'.envs r = x.k.envs r := fun r => by rw [hset.envs_eq]
  exact ⟨hmembers ▸ hc', congrArg Env.envId (henvs c'), congrArg Env.envParentId (henvs c'),
    congrArg Env.envId (henvs q), forked_forks_of_ne hcp, hentry c' hc' hce⟩

/-- What is being sent to `c` afterwards. -/
lemma sending_forked {u : ℕ} : (x.forked p k' pc').Sending c u ↔ ∃ child i j perm,
    pc' = .remap child i j perm ∧ (x.k.envs c).envId = child ∧ u = i * 1024 + j := by
  have henvs : k'.envs = x.k.envs := hset.envs_eq
  constructor
  · rintro ⟨q, child', i, j, perm, hq, hid, hu⟩
    have hid' : (x.k.envs c).envId = child' :=
      (congrArg Env.envId (congrFun henvs c)).symm.trans hid
    by_cases hqp : q = p
    · subst hqp
      exact ⟨child', i, j, perm, Option.some.inj (forked_forks_self.symm.trans hq), hid', hu⟩
    · have hq' := (forked_forks_of_ne hqp).symm.trans hq
      exact absurd (unique_maker hinv h hm hp.mem ⟨_, child', hq', rfl, hid'⟩) hqp
  · rintro ⟨child', i, j, perm, rfl, hid, hu⟩
    exact ⟨p, child', i, j, perm, forked_forks_self,
      (congrArg Env.envId (congrFun henvs c)).trans hid, hu⟩

omit hp in
/-- What is being sent to other processes. -/
lemma sending_other (hpc : x.forks p = some pc) (hchild : childOf pc = some child)
    (hchild' : childOf pc' = some child) (hq : q ∈ x.members) (hqc : q ≠ c) {u : ℕ} :
    (x.forked p k' pc').Sending q u ↔ x.Sending q u := by
  have hid : (k'.envs q).envId = (x.k.envs q).envId := by rw [hset.envs_eq]
  have hne : (x.k.envs q).envId ≠ child := fun hc =>
    hqc (envId_inj hinv (h.pages.live q hq) (h.pages.live c hm.mem) (hc.trans hm.envId.symm))
  constructor
  · rintro ⟨r, child', i, j, perm, hr, hid', hu⟩
    have hid₁ : (x.k.envs q).envId = child' := hid.symm.trans hid'
    by_cases hrp : r = p
    · subst hrp
      obtain rfl := Option.some.inj (forked_forks_self.symm.trans hr)
      exact absurd (hid₁.trans (Option.some.inj hchild')) hne
    · exact ⟨r, child', i, j, perm, (forked_forks_of_ne hrp).symm.trans hr, hid₁, hu⟩
  · rintro ⟨r, child', i, j, perm, hr, hid', hu⟩
    by_cases hrp : r = p
    · subst hrp
      obtain rfl := Option.some.inj (hpc.symm.trans hr)
      exact absurd (hid'.trans (Option.some.inj hchild)) hne
    · exact ⟨r, child', i, j, perm, (forked_forks_of_ne hrp).trans hr, hid.trans hid', hu⟩

end

end

/-- The entry that `duppage` makes names the same page, with the flags after a fork. -/
lemma duppage_word (old : Option Word) {perm : Word} {again : Bool} (hf : pteFrame w < 0x80000)
    (hdup : Fork.duppage (pteBits w) = (perm, again)) :
    pteFrame (insertedWord old (pteFrame w) (perm ||| PTE_U)) = pteFrame w ∧
      flagsOf (insertedWord old (pteFrame w) (perm ||| PTE_U)) = (flagsOf w).dup := by
  have hperm : perm = (Fork.duppage (pteBits w)).1 := (congrArg Prod.fst hdup).symm
  have hlt : perm < 0x400#32 := hperm ▸ Fork.duppage_lt w
  exact ⟨(insertedWord_spec old hf (Fork.or_PTE_U_lt hlt)).1,
    by rw [flagsOf_inserted old hf hlt, hperm, flagsOf_duppage]⟩

/-- Where the page is not mapped again, the flags stay. -/
lemma dup_of_not_again {perm : Word} (hdup : Fork.duppage (pteBits w) = (perm, false)) :
    (flagsOf w).dup = flagsOf w := by
  have hno : ¬ (HasFlag w PTE_W ∧ ¬ HasFlag w PTE_LIBRARY) := fun hc =>
    absurd ((congrArg Prod.snd hdup).symm.trans (duppage_again.mpr hc)) (by simp)
  rw [Flags.dup, if_neg]
  simpa [flagsOf, not_and, not_not] using hno

lemma hasFlag_library_of_dup {w' : Word} (h : flagsOf w' = (flagsOf w).dup) :
    HasFlag w' PTE_LIBRARY ↔ HasFlag w PTE_LIBRARY := by
  have hs := congrArg Flags.shared h
  rw [Flags.dup_shared] at hs
  simpa [flagsOf] using hs

section

variable (hk : KInv T x.k) (hgap : T.gap = true) (hinv : EnvInv x.k) (h : Ok x) (hp : x.Runs p)
include hk hgap hinv h hp

/-- **A page is mapped in the child.** -/
lemma map_remapped {i j : ℕ} {perm : Word} {again : Bool}
    (hpc : x.forks p = some (.map child i j perm again))
    (hcall : x.k.Calls (.memMap 0#32 (BitVec.ofNat 32 (i * 1024 + j) <<< 12) child
      (BitVec.ofNat 32 (i * 1024 + j) <<< 12) perm) 0#32 k') :
    ∃ c w wc, Making x p c child (i * 1024 + j) ∧ ENVX child = c ∧
      isIllegalVa (BitVec.ofNat 32 (i * 1024 + j) <<< 12) = false ∧
      x.k.pageEntry p (i * 1024 + j) = some w ∧ Fork.duppage (pteBits w) = (perm, again) ∧
      x.k.Remapped k' c (BitVec.ofNat 32 (i * 1024 + j) <<< 12) (some wc) ∧
      pteFrame wc = pteFrame w ∧ flagsOf wc = (flagsOf w).dup := by
  obtain ⟨hj, hv, ⟨w, hw, hdup⟩, c, hm⟩ := (h.forks p _ hpc).2
  obtain ⟨e, e', w', he, he', hva, -, hw', hset⟩ := hcall.memMap hk hgap
  obtain rfl : p = e := Kernel.Resolves.unique (.self rfl hp.cur) he
  obtain rfl : c = e' := (hm.resolves hinv h.pages hp).unique he'
  obtain rfl := Option.some.inj (hw.symm.trans hw')
  have hlt := T.lt_max (Kernel.Maps.mem_pool hk hgap
    ⟨p, _, w, h.pages.live p hp.mem, isOwnVa_page hv, hw, rfl⟩)
  exact ⟨c, w, _, hm, hm.envx hinv h.pages hp, hva, hw, hdup, hset, duppage_word _ hlt hdup⟩

omit hinv in
/-- The pages of the processes, after one of `p`'s pages has been mapped in `e`. -/
lemma pages_sent {w' : Word} (he : e ∈ x.members) (hv : IsPage v) (hw : x.k.pageEntry p v = some w)
    (hset : x.k.Remapped k' e (BitVec.ofNat 32 v <<< 12) (some w')) (hf : pteFrame w' = pteFrame w)
    (hflags : flagsOf w' = (flagsOf w).dup) :
    Pages (x.forked p k' pc').k (x.forked p k' pc').members := by
  have hpage : IsPage (VPN (BitVec.ofNat 32 v <<< 12)).toNat := (VPN_pageVa hv).symm ▸ hv
  rw [forked_members fun q => hset.live_iff]
  refine h.pages.remapped hk hgap hset he hpage fun w₁ hw₁ => ?_
  obtain rfl := Option.some.inj hw₁
  exact .inr ⟨p, _, w, hp.mem, hpage, hw, hf.symm, hasFlag_library_of_dup hflags⟩

omit hk hgap in
/-- The entries of other pages are as they were. -/
lemma entry_other (hpc : x.forks p = some pc) (hm : Making x p c child n)
    (hset : x.k.Remapped k' e (BitVec.ofNat 32 v <<< 12) o) (hv : IsPage v) (he : e = c ∨ e = p)
    (hchild : childOf pc = some child) (hchild' : childOf pc' = some child)
    (hold : ∀ u, x.Sending c u → u = v) (hnew : ∀ u, (x.forked p k' pc').Sending c u → u = v)
    (q u : ℕ) (hpq : ¬ (q = p ∧ u = v)) (hcq : ¬ (q = c ∧ u = v)) :
    (x.forked p k' pc').view.entry q u = x.view.entry q u := by
  have hmembers : (x.forked p k' pc').members = x.members := forked_members fun q => hset.live_iff
  refine view_entry_congr (by rw [hmembers]) (fun hq _ => ?_) fun hq hu _ => ?_
  · by_cases hqc : q = c
    · subst hqc
      exact iff_of_false (fun hc => hcq ⟨rfl, hnew u hc⟩) fun hc => hcq ⟨rfl, hold u hc⟩
    · exact sending_other hinv h hm hset hpc hchild hchild' hq hqc
  · refine (pageEntry_remapped hset (h.pages.live q hq) hu).trans (if_neg ?_)
    rintro ⟨rfl, huv⟩
    rw [VPN_pageVa hv] at huv
    rcases he with rfl | rfl
    · exact hcq ⟨rfl, huv⟩
    · exact hpq ⟨rfl, huv⟩

omit hk hgap hinv hp in
/-- One more page of the child has been dealt with. -/
lemma making_remapped {w' : Word} (hm : Making x p c child v) (hv : IsPage v)
    (hset : x.k.Remapped k' c (BitVec.ofNat 32 v <<< 12) (some w')) (hn : n = v + 1) :
    Making (x.forked p k' pc') p c child n := by
  have hmembers : (x.forked p k' pc').members = x.members := forked_members fun q => hset.live_iff
  refine ⟨hmembers ▸ hm.mem, hm.ne, hm.slot, hm.ne_zero, ?_, ?_, ?_, fun u hu hpg => ?_⟩
  · exact (congrArg (fun envs => (envs c).envId) hset.envs_eq).trans hm.envId
  · change (k'.envs _).envParentId = (k'.envs p).envId
    rw [hset.envs_eq]
    exact hm.envParentId
  · rw [forked_forks_of_ne hm.ne]
    exact hm.idle
  · refine (pageEntry_remapped hset (h.pages.live c hm.mem) hpg).trans ?_
    rw [VPN_pageVa hv, if_neg fun hc => by omega]
    exact hm.empty u (by omega) hpg

/-- **A page is given to the child.** -/
lemma map_step {i j : ℕ} {perm : Word} (hpc : x.forks p = some (.map child i j perm false))
    (hcall : x.k.Calls (.memMap 0#32 (BitVec.ofNat 32 (i * 1024 + j) <<< 12) child
      (BitVec.ofNat 32 (i * 1024 + j) <<< 12) perm) 0#32 k') :
    Ok (x.forked p k' (.pte child i (j + 1))) ∧ Frames.Step x.view
      (x.forked p k' (.pte child i (j + 1))).view (.dup p (ENVX child) (i * 1024 + j)) := by
  obtain ⟨hj, hv, -, -⟩ := (h.forks p _ hpc).2
  obtain ⟨c, w, wc, hm, rfl, hva, hw, hdup, hset, hf, hflags⟩ :=
    map_remapped hk hgap hinv h hp hpc hcall
  have hmembers : (x.forked p k' (.pte child i (j + 1))).members = x.members :=
    forked_members fun q => hset.live_iff
  have hcl := h.pages.live _ hm.mem
  have hpl := h.pages.live p hp.mem
  have hpage : (VPN (BitVec.ofNat 32 (i * 1024 + j) <<< 12)).toNat = i * 1024 + j := VPN_pageVa hv
  have hpe : ∀ u, IsPage u → k'.pageEntry p u = x.k.pageEntry p u := fun u hu =>
    (pageEntry_remapped hset hpl hu).trans (if_neg fun hc => hm.ne hc.1.symm)
  have hold : ∀ u, ¬ x.Sending (ENVX child) u := fun u hc => by
    obtain ⟨child', i', j', perm', heq, -⟩ := (sending_child hinv h hp hm hpc).mp hc
    cases heq
  have hnew : ∀ u, ¬ (x.forked p k' (.pte child i (j + 1))).Sending (ENVX child) u := fun u hc => by
    obtain ⟨child', i', j', perm', heq, -⟩ := (sending_forked hinv h hp hm hset).mp hc
    cases heq
  have hnewp : ¬ (x.forked p k' (.pte child i (j + 1))).Sending p (i * 1024 + j) := fun hc =>
    not_sending_of_runs hp ((sending_other hinv h hm hset hpc rfl rfl hp.mem hm.ne.symm).mp hc)
  refine h.next (pages_sent hk hgap h hp hm.mem hv hw hset hf hflags) (fun q pc₁ hq => ?_)
    (.dup (f := pteFrame w) (a := flagsOf w) ?_ ?_ ?_ ?_ ?_)
  · by_cases hqp : q = p
    · subst hqp
      obtain rfl := Option.some.inj (forked_forks_self.symm.trans hq)
      exact ⟨hmembers ▸ hp.mem, by omega, ENVX child, making_remapped h hm hv hset (by omega)⟩
    · rw [forked_forks_of_ne hqp] at hq
      exact others_remapped hinv h hp hm hset (.inl rfl) hqp hq
  · rw [view_entry hp.mem hv (not_sending_of_runs hp), hw, Option.map_some]
  · rw [view_entry (hmembers ▸ hp.mem) hv hnewp,
      show (x.forked p k' _).k.pageEntry p _ = some w from
      (hpe _ hv).trans hw, Option.map_some, dup_of_not_again hdup]
  · rw [view_entry (hmembers ▸ hm.mem) hv (hnew _),
      show (x.forked p k' _).k.pageEntry _ _ = some wc from
      (pageEntry_remapped hset hcl hv).trans (if_pos ⟨rfl, hpage.symm⟩),
        Option.map_some, hf, hflags]
  · exact entry_other hinv h hp hpc hm hset hv (.inl rfl) rfl rfl
      (fun u hc => absurd hc (hold u)) fun u hc => absurd hc (hnew u)
  · exact keeps_of_maps h.pages fun f hf => mem_of_remapped hk hgap hset f hf

/-- **A page is mapped in the child, and not yet again in the parent.**  It is not seen. -/
lemma map_again_step {i j : ℕ} {perm : Word} (hpc : x.forks p = some (.map child i j perm true))
    (hcall : x.k.Calls (.memMap 0#32 (BitVec.ofNat 32 (i * 1024 + j) <<< 12) child
      (BitVec.ofNat 32 (i * 1024 + j) <<< 12) perm) 0#32 k') :
    Ok (x.forked p k' (.remap child i j perm)) ∧
      Frames.Step x.view (x.forked p k' (.remap child i j perm)).view .idle := by
  obtain ⟨hj, hv, -, -⟩ := (h.forks p _ hpc).2
  obtain ⟨c, w, wc, hm, hc, hva, hw, hdup, hset, hf, hflags⟩ :=
    map_remapped hk hgap hinv h hp hpc hcall
  have hmembers : (x.forked p k' (.remap child i j perm)).members = x.members :=
    forked_members fun q => hset.live_iff
  have hcl := h.pages.live c hm.mem
  have hpage : (VPN (BitVec.ofNat 32 (i * 1024 + j) <<< 12)).toNat = i * 1024 + j := VPN_pageVa hv
  have hold : ∀ u, ¬ x.Sending c u := fun u hc => by
    obtain ⟨child', i', j', perm', heq, -⟩ := (sending_child hinv h hp hm hpc).mp hc
    cases heq
  have hnew : ∀ u, (x.forked p k' (.remap child i j perm)).Sending c u ↔ u = i * 1024 + j := by
    intro u
    refine (sending_forked hinv h hp hm hset).trans
      ⟨?_, fun hu => ⟨child, i, j, perm, rfl, hm.envId, hu⟩⟩
    rintro ⟨child', i', j', perm', heq, -, hu⟩
    cases heq
    exact hu
  refine h.next (pages_sent hk hgap h hp hm.mem hv hw hset hf hflags)
    (fun q pc₁ hq => ?_) (.idle ?_ ?_)
  · by_cases hqp : q = p
    · subst hqp
      obtain rfl := Option.some.inj (forked_forks_self.symm.trans hq)
      refine ⟨hmembers ▸ hp.mem, hj, hv, c, w, wc, hva, ?_, hdup, ?_, hf, hflags,
        making_remapped h hm hv hset (by omega)⟩
      · exact ((pageEntry_remapped hset (h.pages.live q hp.mem) hv).trans
          (if_neg fun hc => hm.ne hc.1.symm)).trans hw
      · exact (pageEntry_remapped hset hcl hv).trans (if_pos ⟨rfl, hpage.symm⟩)
    · rw [forked_forks_of_ne hqp] at hq
      exact others_remapped hinv h hp hm hset (.inl rfl) hqp hq
  · funext q u
    by_cases hqu : q = c ∧ u = i * 1024 + j
    · rw [hqu.1, hqu.2, view_entry hm.mem hv (hold _), hm.empty _ le_rfl hv, Option.map_none,
        view_entry_none fun hc => hc.2.2 ((hnew _).mpr rfl)]
    · refine view_entry_congr (by rw [hmembers]) (fun hq _ => ?_) fun hq hu _ => ?_
      · by_cases hqc : q = c
        · subst hqc
          exact iff_of_false (fun hc => hqu ⟨rfl, (hnew u).mp hc⟩) (hold u)
        · exact sending_other hinv h hm hset hpc rfl rfl hq hqc
      · refine (pageEntry_remapped hset (h.pages.live q hq) hu).trans (if_neg ?_)
        rwa [hpage]
  · exact keeps_of_maps h.pages fun f hf => mem_of_remapped hk hgap hset f hf

/-- **The page is mapped again in the parent**, and seen in the child. -/
lemma remap_step {i j : ℕ} {perm r : Word} (hpc : x.forks p = some (.remap child i j perm))
    (hcall : x.k.Calls (.memMap 0#32 (BitVec.ofNat 32 (i * 1024 + j) <<< 12) 0#32
      (BitVec.ofNat 32 (i * 1024 + j) <<< 12) perm) r k') :
    Ok (x.forked p k' (.pte child i (j + 1))) ∧ Frames.Step x.view
      (x.forked p k' (.pte child i (j + 1))).view (.dup p (ENVX child) (i * 1024 + j)) := by
  obtain ⟨hj, hv, c, w, wc, hva, hw, hdup, hwc, hfc, hflagsc, hm⟩ := (h.forks p _ hpc).2
  obtain rfl : ENVX child = c := hm.envx hinv h.pages hp
  have hperm : perm = (Fork.duppage (pteBits w)).1 := (congrArg Prod.fst hdup).symm
  have hlt : perm < 0x400#32 := hperm ▸ Fork.duppage_lt w
  have hset := hcall.memMap_self hk hgap hp.cur hva hlt hw
  have hcl := h.pages.live _ hm.mem
  have hpl := h.pages.live p hp.mem
  have hpp := T.lt_max (Kernel.Maps.mem_pool hk hgap ⟨p, _, w, hpl, isOwnVa_page hv, hw, rfl⟩)
  obtain ⟨hf, hflags⟩ := duppage_word (some w) hpp hdup
  have hmembers : (x.forked p k' (.pte child i (j + 1))).members = x.members :=
    forked_members fun q => hset.live_iff
  have hpage : (VPN (BitVec.ofNat 32 (i * 1024 + j) <<< 12)).toNat = i * 1024 + j := VPN_pageVa hv
  have hce : ∀ u, IsPage u → k'.pageEntry (ENVX child) u = x.k.pageEntry (ENVX child) u :=
    fun u hu =>
    (pageEntry_remapped hset hcl hu).trans (if_neg fun hc => hm.ne hc.1)
  have hold : ∀ u, x.Sending (ENVX child) u → u = i * 1024 + j := fun u hc => by
    obtain ⟨child', i', j', perm', heq, -, hu⟩ := (sending_child hinv h hp hm hpc).mp hc
    cases heq
    exact hu
  have hnew : ∀ u, ¬ (x.forked p k' (.pte child i (j + 1))).Sending (ENVX child) u := fun u hc => by
    obtain ⟨child', i', j', perm', heq, -⟩ := (sending_forked hinv h hp hm hset).mp hc
    cases heq
  have hnewp : ¬ (x.forked p k' (.pte child i (j + 1))).Sending p (i * 1024 + j) := fun hc =>
    not_sending_of_runs hp ((sending_other hinv h hm hset hpc rfl rfl hp.mem hm.ne.symm).mp hc)
  refine h.next (pages_sent hk hgap h hp hp.mem hv hw hset hf hflags) (fun q pc₁ hq => ?_)
    (.dup (f := pteFrame w) (a := flagsOf w) ?_ ?_ ?_ ?_ ?_)
  · by_cases hqp : q = p
    · subst hqp
      obtain rfl := Option.some.inj (forked_forks_self.symm.trans hq)
      refine ⟨hmembers ▸ hp.mem, by omega, ENVX child, hm.congr ⟨hmembers ▸ hm.mem, ?_, ?_, ?_,
        forked_forks_of_ne hm.ne, hce⟩⟩
      · exact congrArg (fun envs => (envs (ENVX child)).envId) hset.envs_eq
      · exact congrArg (fun envs => (envs (ENVX child)).envParentId) hset.envs_eq
      · exact congrArg (fun envs => (envs q).envId) hset.envs_eq
    · rw [forked_forks_of_ne hqp] at hq
      exact others_remapped hinv h hp hm hset (.inr rfl) hqp hq
  · rw [view_entry hp.mem hv (not_sending_of_runs hp), hw, Option.map_some]
  · rw [view_entry (hmembers ▸ hp.mem) hv hnewp,
      show (x.forked p k' _).k.pageEntry p _ = some _ from
      (pageEntry_remapped hset hpl hv).trans (if_pos ⟨rfl, hpage.symm⟩),
        Option.map_some, hf, hflags]
  · rw [view_entry (hmembers ▸ hm.mem) hv (hnew _),
      show (x.forked p k' _).k.pageEntry _ _ = some wc from
      (hce _ hv).trans hwc, Option.map_some, hfc, hflagsc]
  · exact entry_other hinv h hp hpc hm hset hv (.inr rfl) rfl rfl hold
      fun u hc => absurd hc (hnew u)
  · exact keeps_of_maps h.pages fun f hf => mem_of_remapped hk hgap hset f hf

end

/-! ## Every step of `fork` -/

/-- **A step of `fork` that calls nothing, or something that maps nothing.** -/
lemma quiet_forked (h : Ok x) (hp : x.Runs p) (hpc : x.forks p = some pc)
    (hfam : Fork.Family x.k k')
    (hpm : k'.pm = x.k.pm) (hold : ∀ child i j perm, pc ≠ .remap child i j perm)
    (hnew : ∀ child i j perm, pc' ≠ .remap child i j perm)
    (hat : (∀ c child n, Making x p c child n → Making (x.forked p k' pc') p c child n) →
      At (x.forked p k' pc') p pc') :
    Ok (x.forked p k' pc') ∧ Frames.Step x.view (x.forked p k' pc').view .idle :=
  quiet_step h hp (steady_forked hfam hpm) hpm rfl
    (fun _ _ _ _ hc => hold _ _ _ _ (Option.some.inj (hpc.symm.trans hc)))
    (fun _ _ _ _ hc => hnew _ _ _ _ (Option.some.inj hc)) fun _ hpc₁ => Option.some.inj hpc₁ ▸
      hat fun _ _ _ hm => steady_making (steady_forked hfam hpm) h hpc rfl hm

/-- What `vpt` shows as valid is the entry of a page. -/
lemma pageEntry_of_vpt (h : Pages k S) (hp : p ∈ S) (hlt : v < (VPN USTACKTOP).toNat)
    (hv : HasFlag (k.vptWord (k.envs p).envPgdir v) PTE_V) :
    IsPage v ∧ k.pageEntry p v = some (k.vptWord (k.envs p).envPgdir v) := by
  have hS : (VPN USTACKTOP).toNat = 0x7f3fe := by decide
  have hU : (VPN UTOP).toNat = 0x7f400 := by decide
  have hentry := pageEntry_eq_vptWord h hp (v := v) (by omega)
  rw [validWord_of_valid hv] at hentry
  refine ⟨⟨hlt, ?_⟩, hentry⟩
  rintro rfl
  have hscratch := h.scratch p hp
  rw [← pageEntry_VPN, hentry] at hscratch
  cases hscratch

/-- **A step of `fork`.** -/
lemma fork_step {y : Fork.State} (hk : KInv T x.k) (hgap : T.gap = true) (hinv : EnvInv x.k)
    (hhead : ∀ e rest, x.k.envFreeList = e :: rest → e < NENV) (h : Ok x) (hp : x.Runs p)
    (hpc : x.forks p = some pc) (hstep : Fork.Step p cow ⟨x.k, pc, none, fun _ => none⟩ y)
    (hne : y.pc ≠ pc) (hexofork : pc = .exofork → ¬ Fork.ForkFails x.k)
    (hmap : ∀ child i j perm again, pc = .map child i j perm again → y.k.ktf.regs 10 = 0#32) :
    Ok (x.forked p y.k y.pc) ∧ Frames.Step x.view (x.forked p y.k y.pc).view
    (State.forkAct p pc) := by
  obtain ⟨-, hat⟩ := h.forks p pc hpc
  cases hstep with
  | other => exact absurd rfl hne
  | entrySet hpc₀ _ _ =>
      obtain rfl : pc = .entry := hpc₀
      exact quiet_forked h hp hpc .refl rfl (by simp) (by simp [Fork.State.goto]) fun _ => trivial
  | @entryCall r k' hpc₀ _ _ hcall =>
      obtain rfl : pc = .entry := hpc₀
      obtain ⟨hfam, hpm⟩ := Fork.calls_setTlbModEntry hcall
      dsimp only
      split_ifs
      · exact quiet_forked h hp hpc hfam hpm (by simp) (by simp) fun _ => trivial
      · exact quiet_forked h hp hpc hfam hpm (by simp) (by simp) fun _ => trivial
  | @exofork r k' hpc₀ _ hcall =>
      obtain rfl : pc = .exofork := hpc₀
      refine exofork_step hk hgap hinv hhead h hp hpc (hexofork rfl) hcall ?_
      dsimp only
      split_ifs with hr
      · exact .inl rfl
      · exact .inr ⟨hr, rfl⟩
  | @pde child i hpc₀ _ _ _ =>
      obtain rfl : pc = .pde child i := hpc₀
      obtain ⟨c, hm⟩ := hat
      exact quiet_forked h hp hpc .refl rfl (by simp) (by simp [Fork.State.goto]) fun hmk =>
        ⟨Nat.zero_le _, c, (hmk _ _ _ hm).le (by omega)⟩
  | @pdeSkip child i hpc₀ _ _ _ =>
      obtain rfl : pc = .pde child i := hpc₀
      obtain ⟨c, hm⟩ := hat
      exact quiet_forked h hp hpc .refl rfl (by simp) (by simp) fun hmk =>
        ⟨c, (hmk _ _ _ hm).le (by omega)⟩
  | @pdeEnd child i hpc₀ _ _ =>
      obtain rfl : pc = .pde child i := hpc₀
      obtain ⟨c, hm⟩ := hat
      exact quiet_forked h hp hpc .refl rfl (by simp) (by simp [Fork.State.goto]) fun hmk =>
        ⟨c, _, hmk _ _ _ hm⟩
  | @pte child i j hpc₀ _ hj hlt hv =>
      obtain rfl : pc = .pte child i j := hpc₀
      obtain ⟨-, c, hm⟩ := hat
      obtain ⟨hpage, hentry⟩ := pageEntry_of_vpt h.pages hp.mem hlt hv
      exact quiet_forked h hp hpc .refl rfl (by simp) (by simp [Fork.State.goto]) fun hmk =>
        ⟨hj, hpage, fun hc => absurd (hentry.symm.trans hc) (by simp), c, hmk _ _ _ hm⟩
  | @pteSkip child i j hpc₀ _ hj _ =>
      obtain rfl : pc = .pte child i j := hpc₀
      obtain ⟨-, c, hm⟩ := hat
      exact quiet_forked h hp hpc .refl rfl (by simp) (by simp) fun hmk =>
        ⟨by omega, c, (hmk _ _ _ hm).le (by omega)⟩
  | @pteEnd child i j hpc₀ _ hj =>
      obtain rfl : pc = .pte child i j := hpc₀
      obtain ⟨hj', c, hm⟩ := hat
      exact quiet_forked h hp hpc .refl rfl (by simp) (by simp [Fork.State.goto]) fun hmk =>
        ⟨c, (hmk _ _ _ hm).le (by omega)⟩
  | @dup child i j hpc₀ _ =>
      obtain rfl : pc = .dup child i j := hpc₀
      obtain ⟨hj, hv, hsome, c, hm⟩ := hat
      have hvalid : HasFlag (x.k.vptWord (x.k.envs p).envPgdir (i * 1024 + j)) PTE_V := by
        by_contra hno
        rw [pageEntry_eq_vptWord h.pages hp.mem hv.lt_UTOP, validWord_of_not_valid hno] at hsome
        exact hsome rfl
      obtain ⟨-, hentry⟩ := pageEntry_of_vpt h.pages hp.mem hv.1 hvalid
      exact quiet_forked h hp hpc .refl rfl (by simp) (by simp [Fork.State.goto]) fun hmk =>
        ⟨hj, hv, ⟨_, hentry, rfl⟩, c, hmk _ _ _ hm⟩
  | @map child i j perm again r k' hpc₀ _ hcall =>
      obtain rfl : pc = .map child i j perm again := hpc₀
      obtain rfl : r = 0#32 := by
        obtain ⟨-, -, -, -, hr⟩ := id hcall
        exact hr.symm.trans (hmap _ _ _ _ _ rfl)
      cases again
      · exact map_step hk hgap hinv h hp hpc hcall
      · exact map_again_step hk hgap hinv h hp hpc hcall
  | @remap child i j perm r k' hpc₀ _ hcall =>
      obtain rfl : pc = .remap child i j perm := hpc₀
      exact remap_step hk hgap hinv h hp hpc hcall
  | @setEntry child r k' hpc₀ _ hcall =>
      obtain rfl : pc = .setEntry child := hpc₀
      obtain ⟨c, n, hm⟩ := hat
      obtain ⟨hfam, hpm⟩ := Fork.calls_setTlbModEntry hcall
      exact quiet_forked h hp hpc hfam hpm (by simp) (by simp) fun hmk => ⟨c, n, hmk _ _ _ hm⟩
  | @setStatus child r k' hpc₀ _ hcall =>
      obtain rfl : pc = .setStatus child := hpc₀
      obtain ⟨hfam, hpm, -⟩ := Fork.calls_setEnvStatus (c := p) hinv hcall
      exact quiet_forked h hp hpc hfam hpm (by simp) (by simp) fun _ => trivial

/-- **A call of `fork` begins.** -/
lemma call_step (h : Ok x) (hp : x.Runs p) (hidle : x.forks p = none) :
    Ok { x with forks := Function.update x.forks p (some .entry) } ∧
      Frames.Step x.view
        { x with forks := Function.update x.forks p (some .entry) }.view .idle := by
  refine quiet_step h hp ⟨rfl, .refl, fun _ _ _ _ => rfl⟩ rfl rfl
    (fun _ _ _ _ hc => absurd (hidle.symm.trans hc) (by simp)) (by simp) fun pc' hpc' => ?_
  obtain rfl := Option.some.inj hpc'
  trivial

/-- **A call of `fork` ends.** -/
lemma ret_step {r : Word} (h : Ok x) (hp : x.Runs p) (hpc : x.forks p = some (.returned r)) :
    Ok { x with forks := Function.update x.forks p none } ∧
      Frames.Step x.view { x with forks := Function.update x.forks p none }.view .idle :=
  quiet_step h hp ⟨rfl, .refl, fun _ _ _ _ => rfl⟩ rfl rfl
    (fun _ _ _ _ hc => absurd (hpc.symm.trans hc) (by simp)) (by simp) (by simp)

end

end Relatives

end MosRv
