import MosRv.Boot
import MosRv.Lib.Simulation
import MosRv.Queue

/-!
# The kernel's lists in memory (`kern/pmap.c`, `kern/env.c`)

The kernel's state has `page_free_list` as a sequence.  Here are the functions that work on it as
they are in the source, on a memory in which every `pages[i].pp_link` is a pair of pointers
(`LinkedPmap`).  From `page_init` on, whatever pages are then handed out, counted and given back,
they do the same as the functions on sequences, and the pointers are the sequence:
`linkedAllocator_simulates`.

`env_sched_list` is a tail queue with pointers of its own already, and its macros are those in
memory: `ShowsSched.run`.
-/

namespace MosRv

open LinkedLists Queue

/-! ## Pages -/

/-- The state of `kern/pmap.c`, with the kernel's lists as they are in memory. -/
structure LinkedPmap where
  npage : ℕ
  ppRef : ℕ → BitVec 16
  mem : ℕ → ℕ → Word
  lists : KernelHeap

abbrev LinkedM := Prog Exit Panic LinkedPmap

namespace LinkedPmap

def setRef (ρ : LinkedPmap) (pp : ℕ) (r : BitVec 16) : LinkedPmap :=
  { ρ with ppRef := Function.update ρ.ppRef pp r }

def pageInit (nUsed : ℕ) : LinkedM Unit := do
  Prog.modify fun ρ => { ρ with lists := listInit ρ.lists .pageFreeList }
  Prog.forRange (fun i => Prog.modify fun ρ => ρ.setRef i 1#16) 0 nUsed
  let ρ ← Prog.get
  Prog.forRange (fun i => Prog.modify fun ρ =>
    { ρ with lists := listInsertHead ρ.lists .pageFreeList i .ppLink }) nUsed (ρ.npage - nUsed)

def pageAlloc : LinkedM ℕ := do
  let ρ ← Prog.get
  match ρ.lists.first .pageFreeList with
  | none => Prog.exit (.code .noMem)
  | some pp =>
      match listRemove ρ.lists pp .ppLink with
      | none => Prog.panic .nullLink
      | some σ => do
          Prog.set { ρ with
            lists := σ, mem := fun f i => if f = pp then 0#32 else ρ.mem f i }
          pure pp

def pageFree (pp : ℕ) : LinkedM Unit := do
  let ρ ← Prog.get
  if ρ.ppRef pp = 0#16 then
    Prog.set { ρ with lists := listInsertHead ρ.lists .pageFreeList pp .ppLink }
  else Prog.panic .assertRefZero

def pageDecref (pp : ℕ) : LinkedM Unit := do
  let ρ ← Prog.get
  if ρ.ppRef pp = 0#16 then Prog.panic .assertRefPos
  else do
    Prog.modify fun ρ => ρ.setRef pp (ρ.ppRef pp - 1#16)
    let ρ ← Prog.get
    if ρ.ppRef pp = 0#16 then pageFree pp else pure ()

/-- `ρ` and `m` are the same but for the lists. -/
structure Same (ρ : LinkedPmap) (m : Pmap) : Prop where
  npage : ρ.npage = m.npage
  ppRef : ρ.ppRef = m.ppRef
  mem : ρ.mem = m.mem

/-- `ρ` is `m` with `page_free_list` in memory, beside the lists `T`, which are `S`.  The pages on
it are not counted. -/
structure Shows (T : Set KernelList) (S : KernelList → List ℕ) (ρ : LinkedPmap) (m : Pmap) :
    Prop where
  same : ρ.Same m
  lists : Represents kernelLists (insert .pageFreeList T) ρ.lists
    (Function.update S .pageFreeList m.pageFreeList)
  zero : ∀ p ∈ m.pageFreeList, m.ppRef p = 0#16

end LinkedPmap

lemma kernelLists_field_inj {h h' : KernelList} (hf : kernelLists.field h = kernelLists.field h') :
    h = h' := by
  cases h <;> cases h' <;> first | rfl | cases hf

namespace LinkedPmap.Shows

variable {T : Set KernelList} {S : KernelList → List ℕ} {ρ ρ' : LinkedPmap} {m m' : Pmap} {pp : ℕ}
  {rest : List ℕ}

lemma rep (h : Shows T S ρ m) : Rep kernelLists ρ.lists .pageFreeList m.pageFreeList := by
  have hrep := h.lists .pageFreeList (.inl rfl)
  rwa [Function.update_self] at hrep

lemma first_eq (h : Shows T S ρ m) : ρ.lists.first .pageFreeList = m.pageFreeList.head? := by
  obtain ⟨e, hc, -⟩ := h.rep.chain
  exact hc.first_eq

/-- What `page_free_list` holds is reached from its head. -/
lemma nodes_eq (h : Shows T S ρ m) :
    ρ.lists.nodes .ppLink m.pageFreeList.length (ρ.lists.first .pageFreeList) = m.pageFreeList := by
  obtain ⟨e, hc, -⟩ := h.rep.chain
  exact hc.nodes_eq le_rfl

/-- A macro on the list, where it is used as it is meant to be. -/
lemma step (h : Shows T S ρ m) (op : Op KernelList ℕ) (hhead : op.head = .pageFreeList)
    (hkind : op.isTailq = false) (hins : ∀ a, op.inserted = some a → a ∉ m.pageFreeList)
    (hnamed : ∀ b, op.named = some b → b ∈ m.pageFreeList) :
    ∃ σ, op.exec kernelLists ρ.lists = some σ ∧
      Represents kernelLists (insert .pageFreeList T) σ
        (Function.update S .pageFreeList (op.edit m.pageFreeList)) := by
  have hlist : Function.update S .pageFreeList m.pageFreeList op.head = m.pageFreeList := by
    rw [hhead, Function.update_self]
  have hproper : op.Proper kernelLists (insert .pageFreeList T)
      (Function.update S .pageFreeList m.pageFreeList) := by
    refine ⟨hhead ▸ .inl rfl, by rw [hkind, hhead]; rfl, fun a ha h' _ hf => ?_, fun b hb => ?_⟩
    · rw [kernelLists_field_inj hf, hlist]
      exact hins a ha
    · rw [hlist]
      exact hnamed b hb
  obtain ⟨σ, hexec, hrep, -⟩ := h.lists.step hproper
  rw [Op.apply, hlist, hhead, Function.update_idem] at hrep
  exact ⟨σ, hexec, hrep⟩

lemma insertHead (h : Shows T S ρ m) (hpp : pp ∉ m.pageFreeList) (hzero : m.ppRef pp = 0#16) :
    Shows T S { ρ with lists := listInsertHead ρ.lists .pageFreeList pp .ppLink }
      { m with pageFreeList := pp :: m.pageFreeList } := by
  obtain ⟨σ, hexec, hrep⟩ := h.step (.listInsertHead .pageFreeList pp) rfl rfl
    (fun a ha => Option.some.inj ha ▸ hpp) (by simp [Op.named])
  refine ⟨⟨h.same.npage, h.same.ppRef, h.same.mem⟩, ?_, ?_⟩
  · exact Option.some.inj hexec ▸ hrep
  · rintro p (_ | ⟨_, hp⟩)
    · exact hzero
    · exact h.zero p hp

lemma remove (h : Shows T S ρ m) (hl : m.pageFreeList = pp :: rest) :
    ∃ σ, listRemove ρ.lists pp .ppLink = some σ ∧
      Shows T S { ρ with lists := σ, mem := fun f i => if f = pp then 0#32 else ρ.mem f i }
        (m.take pp rest) := by
  obtain ⟨σ, hexec, hrep⟩ := h.step (.listRemove .pageFreeList pp) rfl rfl
    (by simp [Op.inserted]) (fun b hb => Option.some.inj hb ▸ by simp [hl])
  refine ⟨σ, hexec, ⟨h.same.npage, h.same.ppRef, ?_⟩, ?_, fun p hp => ?_⟩
  · rw [h.same.mem]
    rfl
  · rw [Op.edit, hl, List.erase_cons_head] at hrep
    exact hrep
  · exact h.zero p (by simp [hl, show p ∈ rest from hp])

/-- The count of a page that is not on the list may change. -/
lemma setRef (h : Shows T S ρ m) (hpp : pp ∉ m.pageFreeList) (r : BitVec 16) :
    Shows T S (ρ.setRef pp r) (m.setRef pp r) := by
  refine ⟨⟨h.same.npage, ?_, h.same.mem⟩, h.lists, fun p hp => ?_⟩
  · rw [LinkedPmap.setRef, h.same.ppRef]
    rfl
  · have hne : p ≠ pp := fun heq => hpp (heq ▸ hp)
    rw [Pmap.setRef_ppRef, Function.update_of_ne hne]
    exact h.zero p hp

end LinkedPmap.Shows

/-! ## The functions on pages -/

/-- In the loops of `page_init`: only pages from `nUsed` to `i` are on the list, and none of these
is counted. -/
def LinkedPmap.ShowsBelow (T : Set KernelList) (S : KernelList → List ℕ) (nUsed i : ℕ)
    (ρ : LinkedPmap) (m : Pmap) : Prop :=
  LinkedPmap.Shows T S ρ m ∧ (∀ p ∈ m.pageFreeList, p < i) ∧ ∀ p, nUsed ≤ p → m.ppRef p = 0#16

section Pages

variable {T : Set KernelList} {S : KernelList → List ℕ} {E : LinkedPmap → Pmap → Prop} {nUsed n : ℕ}

open LinkedPmap (Shows ShowsBelow Same)
open Prog (Simulates)

lemma markUsed_simulates : Simulates (ShowsBelow T S nUsed 0) (ShowsBelow T S nUsed 0) E
    (Prog.forRange (fun i => Prog.modify fun ρ => ρ.setRef i 1#16) 0 nUsed : LinkedM Unit)
    (Prog.forRange (fun i => Prog.modify fun m => m.setRef i 1#16) 0 nUsed : PmapM Unit) := by
  refine Simulates.forRange (fun _ => ShowsBelow T S nUsed 0) nUsed 0 fun i _ hi => .modify ?_
  rintro ρ m ⟨hshow, hlt, hzero⟩
  refine ⟨hshow.setRef (fun hmem => absurd (hlt i hmem) (Nat.not_lt_zero i)) 1#16, hlt,
    fun p hp => ?_⟩
  rw [Pmap.setRef_ppRef, Function.update_of_ne (by omega)]
  exact hzero p hp

lemma markFree_simulates :
    Simulates (ShowsBelow T S nUsed nUsed) (ShowsBelow T S nUsed (nUsed + n)) E
    (Prog.forRange (fun i => Prog.modify fun ρ =>
      { ρ with lists := listInsertHead ρ.lists .pageFreeList i .ppLink }) nUsed n : LinkedM Unit)
    (Prog.forRange (fun i => Prog.modify fun m => { m with pageFreeList := i :: m.pageFreeList })
      nUsed n : PmapM Unit) := by
  refine Simulates.forRange (ShowsBelow T S nUsed) n nUsed fun i hi _ => .modify ?_
  rintro ρ m ⟨hshow, hlt, hzero⟩
  have hnot : i ∉ m.pageFreeList := fun hmem => absurd (hlt i hmem) (lt_irrefl i)
  refine ⟨hshow.insertHead hnot (hzero i hi), fun p hp => ?_, hzero⟩
  obtain rfl | hp := List.mem_cons.mp hp
  · exact Nat.lt_succ_self p
  · exact (hlt p hp).trans (Nat.lt_succ_self i)

/-- `LIST_INIT` does not ask what was in the head before. -/
lemma pageInit_simulates (hT : .pageFreeList ∉ T) :
    Simulates (fun ρ m => Same ρ m ∧ Represents kernelLists T ρ.lists S ∧
        ∀ p, nUsed ≤ p → m.ppRef p = 0#16)
      (Shows T S) E (LinkedPmap.pageInit nUsed) (pageInit nUsed) := by
  rw [LinkedPmap.pageInit, pageInit]
  refine Simulates.bind (ShowsBelow T S nUsed 0) (.modify ?_) fun _ => ?_
  · rintro ρ m ⟨hsame, hlists, hzero⟩
    exact ⟨⟨⟨hsame.npage, hsame.ppRef, hsame.mem⟩, hlists.listInit rfl hT, by simp⟩, by simp, hzero⟩
  refine markUsed_simulates.bind _ fun _ => .get_bind ?_
  rintro ρ m ⟨hshow, hlt, hzero⟩
  have hbelow : ∀ p ∈ m.pageFreeList, p < nUsed := fun p hp =>
    absurd (hlt p hp) (Nat.not_lt_zero p)
  rw [hshow.same.npage]
  exact (markFree_simulates ρ m ⟨hshow, hbelow, hzero⟩).mono fun _ _ h => h.1

lemma pageAlloc_simulates :
    Simulates (Shows T S) (Shows T S) (Shows T S) LinkedPmap.pageAlloc pageAlloc := by
  rw [LinkedPmap.pageAlloc, pageAlloc]
  refine .get_bind fun ρ m hshow => ?_
  have hfirst := hshow.first_eq
  cases hl : m.pageFreeList with
  | nil =>
      rw [hl, List.head?_nil] at hfirst
      simp only [hfirst]
      exact .exit hshow
  | cons pp rest =>
      obtain ⟨σ, hremove, hshow'⟩ := hshow.remove hl
      rw [hl, List.head?_cons] at hfirst
      simp only [hfirst, hremove]
      exact .ok hshow'

/-- A page that is given back must not be on the list already. -/
lemma pageFree_simulates (pp : ℕ) :
    Simulates (fun ρ m => Shows T S ρ m ∧ pp ∉ m.pageFreeList) (Shows T S) E
      (LinkedPmap.pageFree pp) (pageFree pp) := by
  rw [LinkedPmap.pageFree, pageFree]
  refine .get_bind fun ρ m hshow => ?_
  obtain ⟨hshow, hpp⟩ := hshow
  rw [congrFun hshow.same.ppRef pp]
  split_ifs with hzero
  · exact .ok (hshow.insertHead hpp hzero)
  · exact .panic _

/-- `page_decref` never gives a page back twice: it asserts that the page is counted. -/
lemma pageDecref_simulates (pp : ℕ) :
    Simulates (Shows T S) (Shows T S) E (LinkedPmap.pageDecref pp) (pageDecref pp) := by
  rw [LinkedPmap.pageDecref, pageDecref]
  refine .get_bind fun ρ m hshow => ?_
  rw [congrFun hshow.same.ppRef pp]
  split_ifs with hcount
  · exact .panic _
  have hpp : pp ∉ m.pageFreeList := fun hmem => hcount (hshow.zero pp hmem)
  refine Prog.related_bind (Q := fun ρ m => Shows T S ρ m ∧ pp ∉ m.pageFreeList) (.ok ?_)
    fun _ ρ' m' _ hshow' => ?_
  · dsimp only
    rw [congrFun hshow.same.ppRef pp]
    exact ⟨hshow.setRef hpp _, hpp⟩
  · refine Simulates.get_bind (R := fun ρ m => Shows T S ρ m ∧ pp ∉ m.pageFreeList) ?_ ρ' m' hshow'
    rintro ρ m ⟨hshow, hpp⟩
    rw [congrFun hshow.same.ppRef pp]
    split_ifs with hzero
    · exact pageFree_simulates pp ρ m ⟨hshow, hpp⟩
    · exact .ok hshow

end Pages

/-! ## Runs -/

/-- What `kern/pmap.c` offers to those who need a page. -/
structure PageAllocator (σ : Type) where
  alloc : Prog Exit Panic σ ℕ
  /-- `pp->pp_ref++`. -/
  incref : ℕ → Prog Exit Panic σ Unit
  decref : ℕ → Prog Exit Panic σ Unit

def pmapAllocator : PageAllocator Pmap :=
  ⟨pageAlloc, fun pp => Prog.modify fun m => m.addRef pp, pageDecref⟩

def linkedAllocator : PageAllocator LinkedPmap where
  alloc := LinkedPmap.pageAlloc
  incref pp := Prog.modify fun ρ => ρ.setRef pp (ρ.ppRef pp + 1#16)
  decref := LinkedPmap.pageDecref

inductive PageCall
  | alloc
  | incref (pp : ℕ)
  | decref (pp : ℕ)
  deriving DecidableEq, Repr

namespace PageAllocator

variable {σ : Type} (P : PageAllocator σ)

/-- One call; its value is the page that is handed out. -/
def exec : PageCall → Prog Exit Panic σ (Option ℕ)
  | .alloc => do
      let r ← Prog.attempt P.alloc
      pure r.toOption
  | .incref pp => do
      P.incref pp
      pure none
  | .decref pp => do
      P.decref pp
      pure none

/-- One call after the other. -/
def run : List PageCall → Prog Exit Panic σ (List (Option ℕ))
  | [] => pure []
  | c :: cs => do
      let r ← P.exec c
      let rs ← run cs
      pure (r :: rs)

end PageAllocator

/-- Only pages that have been handed out are counted. -/
def CountsHanded : List PageCall → Pmap → Prop
  | [], _ => True
  | c :: cs, m => (∀ pp, c = .incref pp → pp ∉ m.pageFreeList) ∧
      ∀ r m', pmapAllocator.exec c m = .ok r m' → CountsHanded cs m'

section Runs

variable {T : Set KernelList} {S : KernelList → List ℕ} {E : LinkedPmap → Pmap → Prop} {nUsed : ℕ}

open LinkedPmap (Shows Same)
open Prog (Simulates)

lemma exec_simulates (c : PageCall) :
    Simulates (fun ρ m => Shows T S ρ m ∧ ∀ pp, c = .incref pp → pp ∉ m.pageFreeList) (Shows T S) E
      (linkedAllocator.exec c) (pmapAllocator.exec c) := by
  cases c with
  | alloc =>
      refine Simulates.bind (Shows T S) ?_ fun r => .pure (fun _ _ h => h) _
      exact Simulates.attempt fun ρ m h => pageAlloc_simulates ρ m h.1
  | incref pp =>
      refine Simulates.bind (Shows T S) (.modify ?_) fun _ => .pure (fun _ _ h => h) _
      rintro ρ m ⟨hshow, hpp⟩
      rw [congrFun hshow.same.ppRef pp]
      exact hshow.setRef (hpp pp rfl) _
  | decref pp =>
      refine Simulates.bind (Shows T S) ?_ fun _ => .pure (fun _ _ h => h) _
      exact fun ρ m h => pageDecref_simulates pp ρ m h.1

lemma run_simulates : ∀ cs : List PageCall,
    Simulates (fun ρ m => Shows T S ρ m ∧ CountsHanded cs m) (Shows T S) E
      (linkedAllocator.run cs) (pmapAllocator.run cs)
  | [] => .pure (fun _ _ h => h.1) []
  | c :: cs => by
      rintro ρ m ⟨hshow, hc, hcs⟩
      refine Prog.related_bind (exec_simulates c ρ m ⟨hshow, hc⟩) fun r ρ' m' hexec hshow' => ?_
      exact (run_simulates cs).bind _ (fun rs => .pure (fun _ _ h => h) (r :: rs)) ρ' m'
        ⟨hshow', hcs r m' hexec⟩

/-- **The page allocator on pointers is the page allocator on sequences.**  After `page_init`,
whatever pages are asked for and given back, the two hand out the same pages and stop at the same
assertions, `page_free_list` in memory is the sequence, and the other lists are what they were. -/
theorem linkedAllocator_simulates (hT : .pageFreeList ∉ T) (cs : List PageCall) {ρ : LinkedPmap}
    {m : Pmap} (hsame : Same ρ m) (hlists : Represents kernelLists T ρ.lists S)
    (hzero : ∀ p, nUsed ≤ p → m.ppRef p = 0#16)
    (hcs : ∀ m', pageInit nUsed m = .ok () m' → CountsHanded cs m') :
    Outcome.Related (Shows T S) E
      ((LinkedPmap.pageInit nUsed >>= fun _ => linkedAllocator.run cs) ρ)
      ((pageInit nUsed >>= fun _ => pmapAllocator.run cs) m) := by
  refine Prog.related_bind (pageInit_simulates hT ρ m ⟨hsame, hlists, hzero⟩) ?_
  intro _ ρ' m' hinit hshow
  exact run_simulates cs ρ' m' ⟨hshow, hcs m' hinit⟩

end Runs

/-- Six pages, of which two are used: the highest page is handed out first, and one that is given
back comes next. -/
example :
    ((LinkedPmap.pageInit 2 >>= fun _ =>
      linkedAllocator.run [.alloc, .incref 5, .alloc, .decref 5, .alloc])
      { npage := 6, ppRef := fun _ => 0#16, mem := fun _ _ => 0#32, lists := zeroLinks }).returned
      (fun rs ρ => decide (rs = [some 5, none, some 4, none, some 5] ∧
        ρ.lists.nodes .ppLink 4 (ρ.lists.first .pageFreeList) = [3, 2])) = true := by
  decide +kernel

/-! ## The scheduler's list -/

/-- Where an address in `env_sched_list` is in memory. -/
def schedAddr : TailQueue.Link ℕ → Addr KernelList KernelLink ℕ
  | .null => .null
  | .head => .first .envSchedList
  | .next e => .next .envSchedLink e

/-- A macro on `env_sched_list`. -/
def schedOp : TailQueue.Op ℕ → Op KernelList ℕ
  | .insertHead e => .tailqInsertHead .envSchedList e
  | .insertTail e => .tailqInsertTail .envSchedList e
  | .remove e => .tailqRemove .envSchedList e

/-- The tail queue in memory is `q`. -/
structure ShowsSched (σ : KernelHeap) (q : TailQueue.Queue ℕ) : Prop where
  first : σ.first .envSchedList = q.first
  last : σ.last .envSchedList = schedAddr q.last
  next : ∀ e, σ.next .envSchedLink e = q.next e
  prev : ∀ e, σ.prev .envSchedLink e = schedAddr (q.prev e)

namespace ShowsSched

variable {σ : KernelHeap} {q : TailQueue.Queue ℕ} {l l' : TailQueue.Link ℕ} {as : List ℕ} {e : ℕ}
  {v : Option ℕ}

lemma schedAddr_inj : schedAddr l = schedAddr l' ↔ l = l' := by
  cases l <;> cases l' <;> simp [schedAddr]

lemma deref (h : ShowsSched σ q) (l : TailQueue.Link ℕ) : σ.deref (schedAddr l) = q.deref l := by
  cases l with
  | null => rfl
  | head => exact h.first
  | next e => exact h.next e

lemma path_iff (h : ShowsSched σ q) : ∀ {as : List ℕ} {l : TailQueue.Link ℕ},
    Path σ .envSchedLink (schedAddr l) as (schedAddr l') ↔ TailQueue.Path q l as l'
  | [], _ => schedAddr_inj
  | e :: as, l => by
      rw [LinkedLists.Path, TailQueue.Path, h.deref, h.prev, schedAddr_inj]
      exact and_congr_right fun _ => and_congr_right fun _ => h.path_iff (l := .next e)

/-- The pointers in memory are a sequence exactly when those of the queue are. -/
lemma rep_iff (h : ShowsSched σ q) :
    Rep kernelLists σ .envSchedList as ↔ TailQueue.Rep q as := by
  constructor
  · rintro ⟨e, hc, hlast⟩
    obtain rfl : schedAddr q.last = e := h.last.symm.trans (hlast rfl)
    exact ⟨hc.nodup, h.path_iff.mp hc.path, (h.deref q.last).symm.trans hc.stop⟩
  · intro hr
    exact ⟨_, ⟨hr.nodup, h.path_iff.mpr hr.path, (h.deref q.last).trans hr.stop⟩, fun _ => h.last⟩

lemma setNext (h : ShowsSched σ q) (e : ℕ) (v : Option ℕ) :
    ShowsSched (σ.setNext .envSchedLink e v) { q with next := Function.update q.next e v } where
  first := h.first
  last := h.last
  next c := by
    rw [Heap.next_setNext, h.next]
    simp [Function.update_apply]
  prev := h.prev

lemma setPrev (h : ShowsSched σ q) (e : ℕ) (l : TailQueue.Link ℕ) :
    ShowsSched (σ.setPrev .envSchedLink e (schedAddr l))
      { q with prev := Function.update q.prev e l } where
  first := h.first
  last := h.last
  next := h.next
  prev c := by
    rw [Heap.prev_setPrev, h.prev]
    simp [Function.update_apply, apply_ite schedAddr]

lemma setFirst (h : ShowsSched σ q) (v : Option ℕ) :
    ShowsSched (σ.setFirst .envSchedList v) { q with first := v } :=
  ⟨by simp [Heap.setFirst], h.last, h.next, h.prev⟩

lemma setLast (h : ShowsSched σ q) (l : TailQueue.Link ℕ) :
    ShowsSched (σ.setLast .envSchedList (schedAddr l)) { q with last := l } :=
  ⟨h.first, by simp [Heap.setLast], h.next, h.prev⟩

lemma init (h : ShowsSched σ q) : ShowsSched (tailqInit σ .envSchedList) q.init :=
  (h.setFirst none).setLast .head

/-- A store through an address goes wrong on both sides, or on none. -/
lemma store (h : ShowsSched σ q) (l : TailQueue.Link ℕ) (v : Option ℕ) :
    Option.Rel ShowsSched (σ.store (schedAddr l) v) (q.store l v) := by
  cases l with
  | null => exact .none
  | head => exact .some (h.setFirst v)
  | next e => exact .some (h.setNext e v)

lemma setLast_map {o : Option KernelHeap} {o' : Option (TailQueue.Queue ℕ)}
    (h : Option.Rel ShowsSched o o') (l : TailQueue.Link ℕ) :
    Option.Rel ShowsSched (o.map fun σ => σ.setLast .envSchedList (schedAddr l))
      (o'.map fun q => { q with last := l }) := by
  cases h with
  | none => exact .none
  | some h => exact .some (h.setLast l)

lemma insertHead (h : ShowsSched σ q) (e : ℕ) :
    ShowsSched (tailqInsertHead σ .envSchedList e .envSchedLink) (q.insertHead e) := by
  unfold tailqInsertHead TailQueue.Queue.insertHead
  simp only [Heap.first_setNext, h.first]
  have hnext := h.setNext e q.first
  cases hf : q.first with
  | none =>
      rw [hf] at hnext
      exact ((hnext.setLast (.next e)).setFirst (some e)).setPrev e .head
  | some b =>
      rw [hf] at hnext
      exact ((hnext.setPrev b (.next e)).setFirst (some e)).setPrev e .head

lemma insertTail (h : ShowsSched σ q) (e : ℕ) :
    Option.Rel ShowsSched (tailqInsertTail σ .envSchedList e .envSchedLink) (q.insertTail e) := by
  unfold tailqInsertTail TailQueue.Queue.insertTail
  simp only [Heap.last_setNext, Heap.last_setPrev, h.last]
  exact setLast_map (((h.setNext e none).setPrev e q.last).store q.last (some e)) (.next e)

/-- The store that ends a removal. -/
lemma store_prev (h : ShowsSched σ q) (e : ℕ) :
    Option.Rel ShowsSched (σ.store (σ.prev .envSchedLink e) (σ.next .envSchedLink e))
      (q.store (q.prev e) (q.next e)) := by
  rw [h.prev, h.next]
  exact h.store _ _

lemma remove (h : ShowsSched σ q) (e : ℕ) :
    Option.Rel ShowsSched (tailqRemove σ .envSchedList e .envSchedLink) (q.remove e) := by
  unfold tailqRemove TailQueue.Queue.remove
  rw [h.next, h.prev]
  cases q.next e with
  | none => exact (h.setLast (q.prev e)).store_prev e
  | some b => exact (h.setPrev b (q.prev e)).store_prev e

/-- **The macros on `env_sched_list` are those on the memory.** -/
lemma apply (h : ShowsSched σ q) (op : TailQueue.Op ℕ) :
    Option.Rel ShowsSched ((schedOp op).exec kernelLists σ) (op.apply q) := by
  cases op with
  | insertHead e => exact .some (h.insertHead e)
  | insertTail e => exact h.insertTail e
  | remove e => exact h.remove e

/-- The scheduler may go on with it as long as it likes. -/
lemma run (h : ShowsSched σ q) (ops : List (TailQueue.Op ℕ)) :
    Option.Rel ShowsSched (Op.run kernelLists σ (ops.map schedOp))
      (ops.foldlM (fun q op => op.apply q) q) := by
  induction ops generalizing σ q with
  | nil => exact .some h
  | cons op ops ih =>
      rw [List.map_cons, Op.run, List.foldlM_cons, List.foldlM_cons]
      have hop := h.apply op
      cases hσ : (schedOp op).exec kernelLists σ <;> rw [hσ] at hop <;>
        cases hq : op.apply q <;> rw [hq] at hop <;> cases hop
      · exact .none
      · exact ih ‹_›

/-- It begins with zeroed memory. -/
lemma initial (mc : Machine) (dev : Devices) : ShowsSched zeroLinks (mc.initial dev).envSchedList :=
  ⟨rfl, rfl, fun _ => rfl, fun _ => rfl⟩

end ShowsSched

end MosRv
