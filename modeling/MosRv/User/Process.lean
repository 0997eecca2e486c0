import MosRv.Lib.ProgLoop
import MosRv.User.FileRw

/-!
# A process and its calls

What the library of a program works on: the mappings of its address space, the words of the pages
that are mapped, and the answers of others.  The kernel is asked for pages (`grants` is what
`page_alloc` hands out, call by call), the file server for everything about files (`replies`).  Both
may answer anything.

`vpt` and `vpd` are read as `query_vpt` shows them: the entries of the page tables for addresses
below `UVPT`, those of the directory between `UVPT` and `ULIM`, and above that the kernel panics.
Without an entry in the directory there is no mapping; `Process.held` says so.

An access that faults is not followed, whatever the kernel makes of it.  An `int` function that
returns a negative number leaves with it as an exit.
-/

namespace MosRv.Fd

open Prog

def E_INVAL : Word := Err.inval.toWord
def E_NO_MEM : Word := Err.noMem.toWord
def E_MAX_OPEN : Word := 9

/-- Why a call does not come back. -/
inductive Stop
  | fault
  /-- `query_vpt`: "trying to fetch kernel space vpt". -/
  | vptKernelSpace
  | userPanic
  | outOfFuel

/-- What a process asks of the file server. -/
inductive Request
  | map (fileid offset : Word)
  | setSize (fileid size : Word)
  | close (fileid : Word)
  | dirty (fileid offset : Word)

/-- What the file server sends back: a value, and maybe a page. -/
structure Reply where
  value : Word
  page : Option Mapping

structure Process where
  /-- The slot in `envs[]`. -/
  env : ℕ
  spaces : Spaces
  /-- The entries of the page directory that are not 0. -/
  tables : ℕ → Bool
  /-- The words of the physical pages. -/
  mem : ℕ → ℕ → Word
  grants : ℕ → Option ℕ
  replies : ℕ → Reply
  sent : List Request
  held : ∀ p, (spaces (env, p)).isSome → tables (p / 1024) = true

namespace Process

/-- The mapping of a page. -/
def entry (s : Process) (p : ℕ) : Option Mapping := s.spaces (s.env, p)

/-- The process with another mapping of a page, and a page table for it. -/
def setEntry (s : Process) (p : ℕ) (m : Option Mapping) : Process :=
  { s with
    spaces := Function.update s.spaces (s.env, p) m
    tables := fun i => s.tables i || (m.isSome && decide (p / 1024 = i))
    held := by
      intro q hq
      rw [Bool.or_eq_true]
      by_cases h : q = p
      · subst h
        rw [Function.update_self] at hq
        exact .inr (by simp [hq])
      · rw [Function.update_of_ne (by simp [h])] at hq
        exact .inl (s.held q hq) }

/-- The process with another word in a page. -/
def setWord (s : Process) (page i : ℕ) (w : Word) : Process :=
  { s with mem := Function.update s.mem page (Function.update (s.mem page) i w) }

/-- The process with a page of zeros. -/
def zeroPage (s : Process) (page : ℕ) : Process :=
  { s with mem := Function.update s.mem page fun _ => 0#32 }

/-- The process with an answer of `page_alloc` less to come. -/
def advance (s : Process) : Process := { s with grants := fun n => s.grants (n + 1) }

variable {s : Process} {p q : ℕ} {m : Option Mapping}

@[simp] lemma entry_setEntry_self : (s.setEntry p m).entry p = m := Function.update_self ..

lemma entry_setEntry_of_ne (h : q ≠ p) : (s.setEntry p m).entry q = s.entry q :=
  Function.update_of_ne (by simp [h]) ..

lemma entry_setEntry : (s.setEntry p m).entry q = if q = p then m else s.entry q := by
  split_ifs with h
  · rw [h, entry_setEntry_self]
  · exact entry_setEntry_of_ne h

/-- Unmapping a page leaves its page table. -/
lemma tables_setEntry_none : (s.setEntry p none).tables = s.tables :=
  funext fun _ => Bool.or_false _

lemma setEntry_spaces : (s.setEntry p m).spaces = Function.update s.spaces (s.env, p) m := rfl

@[simp] lemma setEntry_env : (s.setEntry p m).env = s.env := rfl

@[simp] lemma setEntry_mem : (s.setEntry p m).mem = s.mem := rfl

@[simp] lemma setEntry_grants : (s.setEntry p m).grants = s.grants := rfl

@[simp] lemma advance_env : s.advance.env = s.env := rfl

@[simp] lemma advance_spaces : s.advance.spaces = s.spaces := rfl

@[simp] lemma advance_entry : s.advance.entry p = s.entry p := rfl

@[simp] lemma advance_mem : s.advance.mem = s.mem := rfl

@[simp] lemma zeroPage_env : (s.zeroPage p).env = s.env := rfl

@[simp] lemma zeroPage_spaces : (s.zeroPage p).spaces = s.spaces := rfl

@[simp] lemma zeroPage_entry : (s.zeroPage p).entry q = s.entry q := rfl

@[simp] lemma zeroPage_grants : (s.zeroPage p).grants = s.grants := rfl

@[simp] lemma setWord_entry (page i : ℕ) (w : Word) :
    (s.setWord page i w).entry q = s.entry q := rfl

/-- A page that is mapped where nothing was, and unmapped, leaves no trace in the mappings. -/
lemma setEntry_none_spaces {t : Process} (henv : t.env = s.env) (hp : s.entry p = none)
    (ht : t.spaces = Function.update s.spaces (s.env, p) m) :
    (t.setEntry p none).spaces = s.spaces := by
  have hp : s.spaces (s.env, p) = none := hp
  rw [setEntry_spaces, ht, henv, Function.update_idem, ← hp, Function.update_eq_self]

lemma tables_of_entry (h : (s.entry p).isSome) : s.tables (p / 1024) = true := s.held p h

/-- What `query_vpt` shows of the entry for a page number: `none` stands for a panic, the inner
`none` for an entry without `PTE_V`. -/
def window (s : Process) (vpn : Word) : Option (Option Word) :=
  let va := vpn <<< 12
  if va < UVPT then some ((s.entry (pn va)).map Mapping.perm)
  else if va < ULIM then some (if s.tables (PTX va) then some PTE_V else none)
  else none

/-- A process with an empty address space. -/
def empty (grants : ℕ → Option ℕ) : Process where
  env := 2
  spaces := fun _ => none
  tables := fun _ => false
  mem := fun _ _ => 1#32
  grants := grants
  replies := fun _ => ⟨0#32, none⟩
  sent := []
  held := fun _ h => absurd h nofun

lemma empty_entry (grants : ℕ → Option ℕ) (p : ℕ) : (empty grants).entry p = none := rfl

/-- The mappings of the process and the memory are the same. -/
structure Same (s t : Process) : Prop where
  entry : ∀ p, t.entry p = s.entry p
  mem : t.mem = s.mem

lemma Same.refl (s : Process) : s.Same s := ⟨fun _ => rfl, rfl⟩

end Process

abbrev ProcM := Prog Word Stop Process

/-- `x`, and `undo` if it fails: a `goto` to the label of `undo`. -/
def onError {α : Type} (x : ProcM α) (undo : ProcM Unit) : ProcM α := do
  match ← attempt x with
  | .ok a => pure a
  | .error r => do
      undo
      exit r

/-! ## The page tables -/

/-- `vpt[vpn]`; the value is `none` where `PTE_V` is not set. -/
def readVpt (vpn : Word) : ProcM (Option Word) := do
  let s ← get
  match s.window vpn with
  | some flags => pure flags
  | none => panic .vptKernelSpace

/-- `vpd[i]`, which is valid if it is not 0. -/
def readVpd (i : ℕ) : ProcM Bool := do
  let s ← get
  pure (s.tables i)

/-! ## System calls -/

/-- The flags of an entry that a call with `perm` makes. -/
def givenFlags (perm : Word) : Word := pteBits (entryFlags (perm ||| PTE_U))

/-- The next answer of `page_alloc`. -/
def pageAlloc : ProcM ℕ := do
  let s ← get
  set s.advance
  match s.grants 0 with
  | none => exit (-E_NO_MEM)
  | some page => pure page

/-- `syscall_mem_alloc(0, va, perm)`.  One answer stands for the page and the page table. -/
def syscallMemAlloc (va perm : Word) : ProcM Unit :=
  if isIllegalVa va then exit (-E_INVAL)
  else do
    let page ← pageAlloc
    modify fun s => (s.zeroPage page).setEntry (pn va) (some ⟨page, givenFlags perm⟩)

/-- `pgdir_walk` with `create`: `page_alloc` is asked only where the directory has no entry. -/
def pgdirWalk (va : Word) : ProcM Unit := do
  if ← readVpd (pn va / 1024) then pure ()
  else do
    let _ ← pageAlloc

/-- `syscall_mem_map(0, srcva, 0, dstva, perm)`. -/
def syscallMemMap (srcva dstva perm : Word) : ProcM Unit :=
  if isIllegalVa srcva ∨ isIllegalVa dstva then exit (-E_INVAL)
  else do
    let s ← get
    match s.entry (pn srcva) with
    | none => exit (-E_INVAL)
    | some m => do
        pgdirWalk dstva
        modify fun s => s.setEntry (pn dstva) (some ⟨m.page, givenFlags perm⟩)

/-- `syscall_mem_unmap(0, va)`. -/
def syscallMemUnmap (va : Word) : ProcM Unit :=
  if isIllegalVa va then exit (-E_INVAL)
  else modify fun s => s.setEntry (pn va) none

/-! ## Memory -/

def loadWord (va : Word) : ProcM Word := do
  let s ← get
  match s.entry (pn va) with
  | none => panic .fault
  | some m => pure (s.mem m.page (va.toNat % 4096 / 4))

/-- Changes the word at an address. -/
def modifyWord (va : Word) (f : Word → Word) : ProcM Unit := do
  let s ← get
  match s.entry (pn va) with
  | none => panic .fault
  | some m =>
      if HasFlag m.perm PTE_W then
        set (s.setWord m.page (va.toNat % 4096 / 4) (f (s.mem m.page (va.toNat % 4096 / 4))))
      else panic .fault

def storeWord (va w : Word) : ProcM Unit := modifyWord va fun _ => w

def storeByte (va : Word) (b : BitVec 8) : ProcM Unit :=
  let shift := 8 * (va.toNat % 4)
  modifyWord va fun w => (w &&& ~~~(0xFF#32 <<< shift)) ||| (b.setWidth 32 <<< shift)

/-! ## The file server -/

/-- `fsipc`: a page that the server sends is mapped at `dstva`, if that is not 0. -/
def fsipc (r : Request) (dstva : Word) : ProcM (Word × Option Mapping) :=
  -- `syscall_ipc_recv` fails, and `ipc_recv` panics
  if dstva ≠ 0#32 ∧ isIllegalVa dstva then panic .userPanic
  else do
    let s ← get
    let reply := s.replies 0
    set { s with replies := fun n => s.replies (n + 1), sent := s.sent ++ [r] }
    if dstva ≠ 0#32 ∧ reply.page.isSome then modify fun s => s.setEntry (pn dstva) reply.page
    if reply.value.msb then exit reply.value
    else pure (reply.value, reply.page)

def fsipcMap (fileid offset dstva : Word) : ProcM Word := do
  let (_, page) ← fsipc (.map fileid offset) dstva
  match page with
  | none => panic .userPanic
  | some m =>
      -- "unexpected permissions"
      if m.perm &&& ~~~(PTE_W ||| PTE_LIBRARY ||| PTE_U ||| PTE_R) ≠ PTE_V then panic .userPanic
      else pure 0#32

def fsipcSetSize (fileid size : Word) : ProcM Word := do
  let (r, _) ← fsipc (.setSize fileid size) 0#32
  pure r

def fsipcClose (fileid : Word) : ProcM Word := do
  let (r, _) ← fsipc (.close fileid) 0#32
  pure r

def fsipcDirty (fileid offset : Word) : ProcM Word := do
  let (r, _) ← fsipc (.dirty fileid offset) 0#32
  pure r

/-! ## What the calls do -/

section

variable {s : Process} {va vpn : Word} {m : Mapping} {E : Word → Process → Prop} {P : Stop → Prop}

lemma wp_onError {α : Type} {x : ProcM α} {undo : ProcM Unit} {Q : α → Process → Prop} :
    wp (onError x undo) s Q E P ↔
      wp x s Q (fun r s' => wp undo s' (fun _ s'' => E r s'') E P) P := by
  rw [onError, wp_bind, wp_attempt]
  simp only [wp_pure, wp_bind, wp_exit]

lemma pn_shift (va : Word) : pn (VPN va <<< 12) = pn va := by
  have hva := va.isLt
  rw [pn_eq, pn_eq, BitVec.toNat_shiftLeft, VPN_toNat, Nat.shiftLeft_eq]
  omega

/-- Below `UVPT` the window shows the page tables. -/
lemma window_of_lt (h : va.toNat < 0x7FC00000) :
    s.window (VPN va) = some ((s.entry (pn va)).map Mapping.perm) := by
  have hlt : VPN va <<< 12 < UVPT := by
    rw [BitVec.lt_def, BitVec.toNat_shiftLeft, VPN_toNat, Nat.shiftLeft_eq,
      show UVPT.toNat = 0x7FC00000 by decide]
    omega
  rw [Process.window, if_pos hlt, pn_shift]

lemma wp_readVpt {flags : Option Word} {Q : Option Word → Process → Prop}
    (h : s.window vpn = some flags) : wp (readVpt vpn) s Q E P ↔ Q flags s := by
  rw [readVpt, wp_bind, wp_get, h]
  exact wp_pure _

lemma wp_readVpd {i : ℕ} {Q : Bool → Process → Prop} :
    wp (readVpd i) s Q E P ↔ Q (s.tables i) s := Iff.rfl

lemma wp_pageAlloc {Q : ℕ → Process → Prop} :
    wp pageAlloc s Q E P ↔
      (s.grants 0 = none → E (-E_NO_MEM) s.advance) ∧ ∀ p, s.grants 0 = some p → Q p s.advance := by
  rw [pageAlloc, wp_bind, wp_get, wp_bind, wp_set]
  cases s.grants 0 <;> simp

lemma wp_pgdirWalk {Q : Unit → Process → Prop} :
    wp (pgdirWalk va) s Q E P ↔
      (s.tables (pn va / 1024) = true → Q () s) ∧
      (s.tables (pn va / 1024) = false →
        (s.grants 0 = none → E (-E_NO_MEM) s.advance) ∧ ∀ p, s.grants 0 = some p →
        Q () s.advance) := by
  rw [pgdirWalk, wp_bind, wp_readVpd, wp_ite, Bool.not_eq_true]
  refine and_congr Iff.rfl (imp_congr_right fun _ => ?_)
  rw [wp_bind, wp_pageAlloc]
  rfl

/-- A page is mapped, or the call fails and nothing is. -/
lemma wp_syscallMemAlloc {perm : Word} {Q : Unit → Process → Prop} (hva : isIllegalVa va = false) :
    wp (syscallMemAlloc va perm) s Q E P ↔
      (s.grants 0 = none → E (-E_NO_MEM) s.advance) ∧ ∀ p, s.grants 0 = some p →
        Q () ((s.advance.zeroPage p).setEntry (pn va) (some ⟨p, givenFlags perm⟩)) := by
  rw [syscallMemAlloc, hva, if_neg Bool.false_ne_true, wp_bind, wp_pageAlloc]
  rfl

lemma wp_syscallMemMap {dstva perm : Word} {Q : Unit → Process → Prop}
    (hva : isIllegalVa va = false)
    (hdst : isIllegalVa dstva = false) (hm : s.entry (pn va) = some m) :
    wp (syscallMemMap va dstva perm) s Q E P ↔
      (s.tables (pn dstva / 1024) = true →
        Q () (s.setEntry (pn dstva) (some ⟨m.page, givenFlags perm⟩))) ∧
      (s.tables (pn dstva / 1024) = false →
        (s.grants 0 = none → E (-E_NO_MEM) s.advance) ∧ ∀ p, s.grants 0 = some p →
          Q () (s.advance.setEntry (pn dstva) (some ⟨m.page, givenFlags perm⟩))) := by
  have hlegal : ¬ (isIllegalVa va ∨ isIllegalVa dstva) := by simp [hva, hdst]
  rw [syscallMemMap, if_neg hlegal, wp_bind, wp_get, hm]
  rw [wp_bind, wp_pgdirWalk]
  rfl

/-- What the call does to the mappings is `Spaces.memMap`. -/
lemma syscallMemMap_memMap {dstva perm : Word} :
    wp (syscallMemMap va dstva perm) s
      (fun _ s' => s.spaces.memMap s.env va s.env dstva perm = some s'.spaces)
      (fun _ s' => s'.spaces = s.spaces) fun _ => False := by
  by_cases hlegal : isIllegalVa va ∨ isIllegalVa dstva
  · rw [syscallMemMap, if_pos hlegal]
    exact rfl
  · rw [not_or, Bool.not_eq_true, Bool.not_eq_true] at hlegal
    obtain ⟨hva, hdst⟩ := hlegal
    cases hm : s.entry (pn va) with
    | none =>
        rw [syscallMemMap, if_neg (by simp [hva, hdst]), wp_bind, wp_get, hm]
        exact rfl
    | some m =>
        have hmap : s.spaces.memMap s.env va s.env dstva perm =
            some (s.setEntry (pn dstva) (some ⟨m.page, givenFlags perm⟩)).spaces := by
          have hm : s.spaces (s.env, pn va) = some m := hm
          rw [Spaces.memMap, if_neg (by simp [hva, hdst]), hm]
          rfl
        rw [wp_syscallMemMap hva hdst hm]
        exact ⟨fun _ => hmap, fun _ => ⟨fun _ => rfl, fun _ _ => hmap⟩⟩

lemma wp_syscallMemUnmap {Q : Except Word Unit → Process → Prop} (hva : isIllegalVa va = false) :
    wp (attempt (syscallMemUnmap va)) s Q E P ↔ Q (.ok ()) (s.setEntry (pn va) none) := by
  rw [wp_attempt, syscallMemUnmap, hva, if_neg Bool.false_ne_true, wp_modify]

lemma wp_loadWord {Q : Word → Process → Prop} (hm : s.entry (pn va) = some m) :
    wp (loadWord va) s Q E P ↔ Q (s.mem m.page (va.toNat % 4096 / 4)) s := by
  rw [loadWord, wp_bind, wp_get, hm]
  exact wp_pure _

lemma wp_storeWord {w : Word} {Q : Unit → Process → Prop} (hm : s.entry (pn va) = some m)
    (hw : HasFlag m.perm PTE_W) :
    wp (storeWord va w) s Q E P ↔ Q () (s.setWord m.page (va.toNat % 4096 / 4) w) := by
  rw [storeWord, modifyWord, wp_bind, wp_get, hm]
  change wp (if HasFlag m.perm PTE_W then _ else _) s Q E P ↔ _
  rw [if_pos hw, wp_set]

end

end MosRv.Fd
