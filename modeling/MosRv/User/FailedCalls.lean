import MosRv.Fs.Descriptors
import MosRv.Fs.OpenTable

/-!
# What failed calls leave behind (`open`, `ftruncate`)

`open` and `ftruncate` make several requests to the file server, and each of them can be refused
after earlier ones were granted.  A `Site` is the file server with its table of open files, the
mappings of all environments, and what stands in the Filefd pages, which the server fills and the
clients share.

`try` in `open` returns at once when a page cannot be had, and the page of the descriptor stays
mapped, with the pages before: the descriptor is lost.  `ftruncate` stores the size in the page of
the descriptor before it asks for anything, and asks the server for the old size again when a page
cannot be had, but does not put the old size back itself.

`failed_calls_iff` says that there is no other way to leave a trace: a call that fails leaves
everything as it was, unless `open` is refused a page after its first request was granted, or
`ftruncate` is refused something after it has stored a size that is new.

A block that the file system loads is mapped in the server (`Site.loaded`), at a page that the
kernel gives for it.  A page that the server sends is mapped by the kernel, which is taken to have
memory for page tables: if it has none, the client is not told, and `user_assert` in `ipc_send`
stops the server, so no call fails after that.
-/

namespace MosRv.Fs

open Prog

def MAXPATHLEN : ℕ := 1024

/-- The error codes that the file system answers with. -/
def FsErr.toWord : FsErr → Word
  | .noMem => 4
  | .inval => 3
  | .noDisk => 8
  | .maxOpen => 9
  | .notFound => 10
  | .badPath => 11
  | .fileExists => 12

/-- `devfile.dev_id`: the character 'f'. -/
def DEVFILE : Word := 0x66

/-- What is read of a page with a `struct Filefd`. -/
structure FilefdPage where
  devId : Word
  fileid : Word
  size : Word

def FilefdPage.zero : FilefdPage := ⟨0#32, 0#32, 0#32⟩

structure Site where
  /-- The table of open files, and the mappings. -/
  serv : Serv FileRef
  fs : Server
  /-- What stands in a physical page. -/
  ffs : ℕ → FilefdPage
  /-- The page that the kernel gives for a block when the server loads it. -/
  frames : ℕ → ℕ

/-- The errors are the codes that are returned. -/
abbrev SiteM := Prog Word Panic Site

namespace Site

/-! ## The server -/

/-- The page of block `b` in the server. -/
def blockVa (b : ℕ) : Word := DISKMAP + BitVec.ofNat 32 (BY2BLK * b)

/-- The number of that page. -/
def blockPage (b : ℕ) : ℕ := 0x10000 + b

/-- The mappings when the server has the blocks that are in the cache of `t`: those that it has
loaded are mapped with `syscall_mem_alloc(0, va, PTE_W)`, or by a page fault. -/
def loaded (s : Site) (t : Server) : Spaces := fun x =>
  if x.1 = SERVER ∧ s.serv.spaces x = none ∧ blockPage 0 ≤ x.2 ∧ x.2 < blockPage MAXBLOCKS ∧
      (t.cache (x.2 - blockPage 0)).isSome then
    some ⟨s.frames (x.2 - blockPage 0), pteBits (entryFlags (PTE_W ||| PTE_U))⟩
  else s.serv.spaces x

/-- The file system has come to `t`. -/
def ran (s : Site) (t : Server) : Site :=
  { s with fs := t, serv := { s.serv with spaces := s.loaded t } }

/-- The file system works on a request. -/
def onFs {α : Type} (x : FsM α) : SiteM α := fun s =>
  match x s.fs with
  | .ok a t => .ok a (s.ran t)
  | .exit e t => .exit (-e.toWord) (s.ran t)
  | .panic p => .panic p

/-- The table of open files is used. -/
def onServ {α : Type} (x : ServM FileRef α) : SiteM α := fun s =>
  match x s.serv with
  | .ok a t => .ok a { s with serv := t }
  | .exit e t => .exit (-e.toWord) { s with serv := t }
  | .panic p => .panic p

def setFf (s : Site) (p : ℕ) (ff : FilefdPage) : Site :=
  { s with ffs := Function.update s.ffs p ff }

lemma setFf_ffs (s : Site) (p : ℕ) (ff : FilefdPage) : (s.setFf p ff).ffs p = ff :=
  Function.update_self ..

/-- The server fills the page at `opentab[i].o_ff`. -/
def fillFf (i : ℕ) (ff : FilefdPage) : SiteM Unit :=
  modify fun s =>
    match s.serv.ffPage i with
    | some p => s.setFf p ff
    | none => s

/-- `ipc_send(envid, 0, srcva, PTE_W | PTE_LIBRARY)`, to env `e`, which waits with `dstva`. -/
def sendPage (srcva : Word) (e : ℕ) (dstva : Word) : SiteM Unit := do
  let s ← get
  match s.serv.spaces.memMap SERVER srcva e dstva (PTE_W ||| PTE_LIBRARY) with
  | some spaces => set { s with serv := { s.serv with spaces := spaces } }
  | none => panic .assert

/-- `serve_open`; `page` is the page that the kernel has for the server, if it has one. -/
def serveOpen (e : ℕ) (path : List Byte) (mode : Word) (page : Option ℕ) (dstva : Word) :
    SiteM Unit := do
  let i ← onServ (openAlloc page)
  fillFf i .zero
  let fileid := ((← get).serv.opentab i).oFileid
  -- `open_alloc` returns the id as an `int`
  if fileid.msb then exit fileid
  else do
    let f ← onFs (fileOpen path)
    let size ← onFs (loadField f F_SIZE)
    onServ (modifyOpen i fun o => { o with oFile := some f, oMode := mode })
    fillFf i ⟨DEVFILE, fileid, size⟩
    sendPage (offVa i) e dstva

/-- The file that `open_lookup` finds; the kernel stops at a null pointer. -/
def lookupFile (fileid : Word) : SiteM FileRef := do
  let i ← onServ (openLookup fileid)
  match ((← get).serv.opentab i).oFile with
  | some f => pure f
  | none => panic .assert

def serveMap (e : ℕ) (fileid offset dstva : Word) : SiteM Unit := do
  let f ← lookupFile fileid
  let b ← onFs (fileGetBlock f (offset.toNat / BY2BLK))
  sendPage (blockVa b) e dstva

def serveSetSize (fileid size : Word) : SiteM Unit := do
  let f ← lookupFile fileid
  onFs (fileSetSize f size)

/-! ## The client -/

/-- The loop of `fd_alloc` from descriptor `i` on, with `n` descriptors to go. -/
def fdAllocFrom (S : Spaces) (e : ℕ) : (i n : ℕ) → Option ℕ
  | _, 0 => none
  | i, n + 1 =>
      if S (e, pn (index2fd (BitVec.ofNat 32 i))) = none then some i else fdAllocFrom S e (i + 1) n

/-- The first descriptor without a page. -/
def fdAlloc (e : ℕ) : SiteM Word := do
  match fdAllocFrom (← get).serv.spaces e 0 (MAXFD - 1) with
  | some i => pure (index2fd (BitVec.ofNat 32 i))
  | none => exit (-FsErr.maxOpen.toWord)

def fsipcOpen (e : ℕ) (path : List Byte) (mode : Word) (page : Option ℕ) (fd : Word) : SiteM Unit :=
  if MAXPATHLEN ≤ path.length then exit (-FsErr.badPath.toWord)
  else serveOpen e path mode page fd

/-- `fsipc_map(fileid, i, va + i)` for page `p` of the file. -/
def fsipcMap (e : ℕ) (fileid va : Word) (p : ℕ) : SiteM Unit :=
  serveMap e fileid (BitVec.ofNat 32 (BY2BLK * p)) (va + BitVec.ofNat 32 (BY2BLK * p))

/-- What the process finds in the page of a descriptor. -/
def filefd (s : Site) (e : ℕ) (fd : Word) : FilefdPage :=
  match s.serv.spaces (e, pn fd) with
  | some m => s.ffs m.page
  | none => .zero

/-- The rounds of the loop of `open`.  The counter does not wrap around, as no page behind the last
block that a file can have is granted. -/
def blocksOf (size : Word) : ℕ := (size.toNat + (BY2BLK - 1)) / BY2BLK

/-- `open` up to the answer to its first request: the page of the descriptor. -/
def openFd (e : ℕ) (path : List Byte) (mode : Word) (page : Option ℕ) : SiteM Word := do
  let fd ← fdAlloc e
  fsipcOpen e path mode page fd
  pure fd

/-- `open` in env `e`. -/
def openPath (e : ℕ) (path : List Byte) (mode : Word) (page : Option ℕ) : SiteM Word := do
  let fd ← openFd e path mode page
  let ff := (← get).filefd e fd
  forRange (fsipcMap e ff.fileid (fd2data fd)) 0 (blocksOf ff.size)
  pure (fd2num fd)

/-- `syscall_mem_unmap(0, va)`, or `user_panic`. -/
def memUnmapAt (e : ℕ) (va : Word) : SiteM Unit := do
  if isIllegalVa va then panic .assert
  else modify fun s => { s with serv := { s.serv with spaces := s.serv.spaces.memUnmap e va } }

/-- `ftruncate` from the point where the size is stored in page `p`. -/
def setSize (p : ℕ) (ff : FilefdPage) (size : Word) : SiteM Unit := do
  modify fun s => s.setFf p { ff with size := size }
  serveSetSize ff.fileid size

/-- `ftruncate` in env `e`. -/
def ftruncate (e : ℕ) (fdnum size : Word) : SiteM Unit := do
  if MAXFILESIZE < size.toNat then exit (-FsErr.noDisk.toWord)
  else do
    let s ← get
    match s.serv.spaces.fdLookup e fdnum with
    | none => exit (-FsErr.inval.toWord)
    | some m => do
        let ff := s.ffs m.page
        if ff.devId ≠ DEVFILE then exit (-FsErr.inval.toWord)
        else do
          setSize m.page ff size
          let va := fd2data (index2fd fdnum)
          -- map any new pages needed if extending the file; the first that fails ends the loop
          match ← attempt (forRange (fsipcMap e ff.fileid va) (pagesOf ff.size)
              (pagesOf size - pagesOf ff.size)) with
          | .error r => do
              let _ ← attempt (serveSetSize ff.fileid ff.size)
              exit r
          | .ok _ =>
              -- unmap pages if truncating the file
              forRange (fun p => memUnmapAt e (va + BitVec.ofNat 32 (BY2BLK * p))) (pagesOf size)
                (pagesOf ff.size - pagesOf size)

/-! ## What a failed call is to leave -/

/-- A page of the table of descriptors, or of the windows behind it. -/
def IsFilePage (n : ℕ) : Prop := fdPage 0 ≤ n ∧ n < dataPage MAXFD

/-- The same pages are mapped in the process. -/
def SamePages (e : ℕ) (s s' : Site) : Prop :=
  ∀ n, IsFilePage n → s'.serv.spaces (e, n) = s.serv.spaces (e, n)

/-- **After a failed `ftruncate`**, the pages and both sizes are as before. -/
structure SameSizes (e : ℕ) (fdnum : Word) (s s' : Site) : Prop where
  pages : SamePages e s s'
  client : ∀ m, s.serv.spaces.fdLookup e fdnum = some m →
    (s'.ffs m.page).size = (s.ffs m.page).size
  server : ∀ m f, s.serv.spaces.fdLookup e fdnum = some m →
    (s.serv.opentab ((s.ffs m.page).fileid.toNat % MAXOPEN)).oFile = some f →
      s'.fs.view.field f F_SIZE = s.fs.view.field f F_SIZE

/-- `open` is refused a page. -/
def OpenLosesFd (e : ℕ) (path : List Byte) (mode : Word) (page : Option ℕ) (s : Site) : Prop :=
  ∃ fd s₁, openFd e path mode page s = .ok fd s₁ ∧ ∃ r t,
    LeavesAt (fsipcMap e (s₁.filefd e fd).fileid (fd2data fd)) 0 (blocksOf (s₁.filefd e fd).size)
      s₁ r t

/-- `ftruncate` is refused a page, and goes back to the old size, if the server does not stop then.
-/
def RollsBack (e : ℕ) (fdnum size : Word) (m : Mapping) (s : Site) : Prop :=
  ∃ s₁, setSize m.page (s.ffs m.page) size s = .ok () s₁ ∧ ∃ r t,
    LeavesAt (fsipcMap e (s.ffs m.page).fileid (fd2data (index2fd fdnum)))
      (pagesOf (s.ffs m.page).size) (pagesOf size - pagesOf (s.ffs m.page).size) s₁ r t ∧
    ∀ p, serveSetSize (s.ffs m.page).fileid (s.ffs m.page).size t ≠ .panic p

/-- `ftruncate` is refused the size, which is not the old one, or a page. -/
def TruncateKeepsSize (e : ℕ) (fdnum size : Word) (s : Site) : Prop :=
  size.toNat ≤ MAXFILESIZE ∧ ∃ m, s.serv.spaces.fdLookup e fdnum = some m ∧
    (s.ffs m.page).devId = DEVFILE ∧
      (¬ s.serv.Accepts (s.ffs m.page).fileid ∧ size ≠ (s.ffs m.page).size ∨
        RollsBack e fdnum size m s)

/-! ## One request -/

section

variable {α : Type} {e : ℕ} {s s' : Site} {fileid size va fd : Word} {m : Mapping}

@[simp] lemma wp_onFs (x : FsM α) {Q : α → Site → Prop} {E : Word → Site → Prop}
    {P : Panic → Prop} :
    wp (onFs x) s Q E P ↔ wp x s.fs (fun a t => Q a (s.ran t))
      (fun e t => E (-e.toWord) (s.ran t)) P := by
  unfold wp onFs
  cases x s.fs <;> rfl

@[simp] lemma wp_onServ (x : ServM FileRef α) {Q : α → Site → Prop} {E : Word → Site → Prop}
    {P : Panic → Prop} :
    wp (onServ x) s Q E P ↔ wp x s.serv (fun a t => Q a { s with serv := t })
      (fun e t => E (-e.toWord) { s with serv := t }) P := by
  unfold wp onServ
  cases x s.serv <;> rfl

/-- What is in the pages is as before, and no page is unmapped. -/
structure Keeps (s s' : Site) : Prop where
  ffs : s'.ffs = s.ffs
  spaces : ∀ x, (s.serv.spaces x).isSome → (s'.serv.spaces x).isSome

lemma Keeps.refl (s : Site) : s.Keeps s := ⟨rfl, fun _ h => h⟩

lemma Keeps.trans {t : Site} (h : s.Keeps s') (h' : s'.Keeps t) : s.Keeps t :=
  ⟨h'.ffs.trans h.ffs, fun x hx => h'.spaces x (h.spaces x hx)⟩

/-- What the server loads is mapped in the server only. -/
lemma ran_spaces (he : e ≠ SERVER) (t : Server) (n : ℕ) :
    (s.ran t).serv.spaces (e, n) = s.serv.spaces (e, n) :=
  if_neg fun h => he h.1

lemma keeps_ran (s : Site) (t : Server) : s.Keeps (s.ran t) := by
  refine ⟨rfl, fun x hx => ?_⟩
  change (s.loaded t x).isSome
  rw [loaded]
  split_ifs
  · rfl
  · exact hx

/-- A page that is sent is mapped, and the others stay. -/
lemma wp_sendPage (srcva : Word) (e : ℕ) (dstva : Word) :
    wp (sendPage srcva e dstva) s
      (fun _ s' => s.Keeps s' ∧ (s'.serv.spaces (e, pn dstva)).isSome) (fun _ _ => False)
      fun _ => True := by
  rw [sendPage, wp_bind, wp_get]
  cases hmap : s.serv.spaces.memMap SERVER srcva e dstva (PTE_W ||| PTE_LIBRARY) with
  | none => trivial
  | some spaces =>
      rw [Spaces.memMap] at hmap
      split_ifs at hmap
      obtain ⟨m, -, rfl⟩ := Option.map_eq_some_iff.mp hmap
      refine ⟨⟨rfl, fun x hx => ?_⟩, ?_⟩
      · dsimp only
        rw [Function.update_apply]
        split_ifs
        · rfl
        · exact hx
      · dsimp only
        rw [Function.update_self]
        rfl

lemma openLookup_exit {t t' : Serv FileRef} {r : FsErr}
    (h : openLookup fileid t = .exit r t') : t' = t := by
  change (if _ then _ else _ : ServM FileRef ℕ) t = _ at h
  split_ifs at h
  cases h
  rfl

/-- `open_lookup` changes nothing. -/
lemma wp_lookupFile (fileid : Word) :
    wp (lookupFile fileid) s (fun _ s' => s' = s ∧ s.serv.Accepts fileid)
      (fun _ s' => s' = s ∧ ¬ s.serv.Accepts fileid) fun _ => s.serv.Accepts fileid := by
  rw [lookupFile, wp_bind, wp_onServ, Serv.Accepts]
  refine (wp_self _ _).mono (fun i t hok => ?_) (fun r t hexit => ?_) fun p hpanic => ?_
  · obtain ⟨rfl, -⟩ := openLookup_eq_ok_iff.mp hok
    rw [wp_bind, wp_get]
    split
    · exact ⟨rfl, i, hok⟩
    · exact ⟨i, hok⟩
  · obtain rfl := openLookup_exit hexit
    refine ⟨rfl, ?_⟩
    rintro ⟨i, hok⟩
    exact absurd (hexit.symm.trans hok) nofun
  · change (if _ then _ else _ : ServM FileRef ℕ) s.serv = _ at hpanic
    split_ifs at hpanic
    cases hpanic

lemma wp_fsipcMap (e : ℕ) (fileid va : Word) (p : ℕ) :
    wp (fsipcMap e fileid va p) s (fun _ s' => s.Keeps s') (fun _ s' => s.Keeps s')
      fun _ => True := by
  rw [fsipcMap, serveMap, wp_bind]
  refine (wp_lookupFile fileid).mono ?_ (fun _ _ h => h.1 ▸ .refl _) fun _ _ => trivial
  rintro f _ ⟨rfl, -⟩
  rw [wp_bind, wp_onFs]
  refine (wp_self _ _).mono (fun b t _ => ?_) (fun _ t _ => keeps_ran _ t) fun _ _ => trivial
  exact (wp_sendPage _ e _).mono (fun _ _ h => (keeps_ran _ t).trans h.1) (fun _ _ h => h.elim)
    fun _ _ => trivial

/-- The requests for pages. -/
lemma wp_fsipcMaps (e : ℕ) (fileid va : Word) (lo n : ℕ) :
    wp (forRange (fsipcMap e fileid va) lo n) s (fun _ s' => s.Keeps s') (fun _ s' => s.Keeps s')
      fun _ => True :=
  wp_forRange (fun _ s' => s.Keeps s') n lo (Keeps.refl s) fun p _ _ _ h =>
    (wp_fsipcMap e fileid va p).mono (fun _ _ h' => h.trans h') (fun _ _ h' => h.trans h')
      fun _ h => h

end

/-! ## Setting a size -/

section

variable {C : FsErr → Prop} {f : FileRef}

lemma exits_freeBlock (b : ℕ) : Exits C (freeBlock b) :=
  .ite (.pure _) (.bind exits_nblocks fun _ => .ite (.pure _)
    (.bind (exits_loadWord _ _) fun _ => exits_storeWord _ _ _))

lemma exits_clearSlot (ptr : ℕ × ℕ) : Exits C (clearSlot ptr) :=
  .bind (exits_loadWord _ _) fun _ => .ite (.pure _)
    (.bind (exits_freeBlock _) fun _ => exits_storeWord _ _ _)

lemma exits_fileTruncate (f : FileRef) (w : Word) : Exits C (fileTruncate f w) :=
  .bind (exits_loadWord _ _) fun _ =>
    .bind (.forRange (fun _ => .bind (.attempt _) fun _ => .pure _) _ _) fun _ =>
      .bind (.ite (exits_clearSlot _) (.pure _)) fun _ => exits_storeWord _ _ _

lemma exits_writeIfDirty (b : ℕ) : Exits C (writeIfDirty b) := by
  have hmapped : Exits C (blockIsMapped b) := .bind .get fun _ => .pure _
  exact .bind hmapped fun _ => .ite (.bind hmapped fun _ =>
    .ite (.bind (exits_loadBlock b) fun _ => .modify _) (.panic _)) (.pure _)

lemma exits_fileFlush (f : FileRef) : Exits C (fileFlush f) := by
  refine .bind (exits_loadWord _ _) fun _ =>
    .forRange (fun bno => .bind (.attempt _) fun r => ?_) _ _
  cases r with
  | error e => exact .pure _
  | ok b => exact exits_writeIfDirty b

/-- **`file_set_size` never fails.** -/
lemma exits_fileSetSize (f : FileRef) (w : Word) : Exits C (fileSetSize f w) :=
  .bind (exits_loadWord _ _) fun _ => .bind (.ite (exits_fileTruncate f w) (.pure _)) fun _ =>
    .bind (exits_storeWord _ _ _) fun _ =>
      .bind (exits_loadWord _ _) fun _ => .ite (.pure _) (exits_fileFlush _)

end

section

variable {e : ℕ} {s s' : Site} {fileid size fdnum fd : Word} {path : List Byte} {mode : Word}
  {page : Option ℕ}

/-- A request to set a size is granted if the file is open. -/
lemma wp_serveSetSize (fileid size : Word) :
    wp (serveSetSize fileid size) s
      (fun _ s' => s.serv.Accepts fileid ∧ s'.ffs = s.ffs)
      (fun _ s' => s' = s ∧ ¬ s.serv.Accepts fileid) fun _ => s.serv.Accepts fileid := by
  rw [serveSetSize, wp_bind]
  refine (wp_lookupFile fileid).mono ?_ (fun _ _ h => h) fun _ h => h
  rintro f _ ⟨rfl, hacc⟩
  rw [wp_onFs]
  refine ((exits_fileSetSize (C := fun _ => False) f size).wp_true _).mono ?_
    (fun _ _ h => h.elim) fun _ _ => hacc
  exact fun _ _ _ => ⟨hacc, rfl⟩

/-! ## `open` -/

lemma fdAllocFrom_eq {S : Spaces} {i n d : ℕ} (h : fdAllocFrom S e i n = some d) :
    d < i + n ∧ S (e, pn (index2fd (BitVec.ofNat 32 d))) = none := by
  induction n generalizing i with
  | zero => cases h
  | succ n ih =>
      rw [fdAllocFrom] at h
      split_ifs at h with hnone
      · obtain rfl := Option.some.inj h
        exact ⟨by omega, hnone⟩
      · have := ih h
        exact ⟨by omega, this.2⟩

/-- The descriptor that is found has no page. -/
lemma wp_fdAlloc (e : ℕ) :
    wp (fdAlloc e) s
      (fun fd s' => s' = s ∧ IsFilePage (pn fd) ∧ s.serv.spaces (e, pn fd) = none)
      (fun _ s' => s' = s) fun _ => False := by
  rw [fdAlloc, wp_bind, wp_get]
  cases hfd : fdAllocFrom s.serv.spaces e 0 (MAXFD - 1) with
  | none => exact rfl
  | some d =>
      obtain ⟨hlt, hnone⟩ := fdAllocFrom_eq hfd
      simp only [MAXFD] at hlt
      have hd : BitVec.ofNat 32 d < 32 := by
        rw [BitVec.lt_def, BitVec.toNat_ofNat]
        exact (Nat.mod_le d _).trans_lt (show d < 32 by omega)
      refine ⟨rfl, ?_, hnone⟩
      rw [pn_index2fd hd, BitVec.toNat_ofNat, IsFilePage, fdPage, fdPage, dataPage, MAXFD]
      omega

/-- The page for the table is the server's. -/
lemma spaces_taken {t : Serv FileRef} (he : e ≠ SERVER) (i n : ℕ) :
    (t.taken i page).spaces (e, n) = t.spaces (e, n) := by
  cases page with
  | none => rfl
  | some p =>
      change (if _ then _ else _ : Spaces) (e, n) = _
      split_ifs
      · rw [Spaces.memAlloc]
        split_ifs
        · rfl
        · exact Function.update_of_ne (fun h => he (congrArg Prod.fst h)) ..
      · rfl

/-- A request to open that is refused maps nothing in the process. -/
lemma wp_serveOpen (he : e ≠ SERVER) (path : List Byte) (mode : Word)
    (page : Option ℕ) (fd : Word) :
    wp (serveOpen e path mode page fd) s (fun _ s' => (s'.serv.spaces (e, pn fd)).isSome)
      (fun _ s' => ∀ n, s'.serv.spaces (e, n) = s.serv.spaces (e, n)) fun _ => True := by
  rw [serveOpen, wp_bind, wp_onServ, wp_openAlloc]
  split
  · exact fun _ => rfl
  rename_i i _
  split_ifs
  · exact fun _ => rfl
  have hfill : ∀ (t : Site) (ff : FilefdPage) {Q : Unit → Site → Prop},
      (∀ t', t'.serv = t.serv → t'.fs = t.fs → Q () t') →
        wp (fillFf i ff) t Q (fun _ s' => ∀ n, s'.serv.spaces (e, n) = s.serv.spaces (e, n))
          fun _ => True := by
    intro t ff Q hQ
    rw [fillFf, wp_modify]
    split
    · exact hQ _ rfl rfl
    · exact hQ _ rfl rfl
  rw [wp_bind]
  refine hfill _ _ fun t ht _ => ?_
  have hsame : ∀ n, t.serv.spaces (e, n) = s.serv.spaces (e, n) := by
    intro n
    rw [ht]
    exact spaces_taken he i n
  rw [wp_bind, wp_get, wp_ite]
  refine ⟨fun _ => hsame, fun _ => ?_⟩
  rw [wp_bind, wp_onFs]
  have hsame₁ : ∀ t₁ n, (t.ran t₁).serv.spaces (e, n) = s.serv.spaces (e, n) := fun t₁ n =>
    (ran_spaces he t₁ n).trans (hsame n)
  refine (wp_self _ _).mono (fun f t₁ _ => ?_) (fun _ t₁ _ => hsame₁ t₁) fun _ _ => trivial
  rw [wp_bind, wp_onFs]
  refine (wp_self _ _).mono (fun w t₂ _ => ?_)
    (fun _ t₂ _ n => (ran_spaces he t₂ n).trans (hsame₁ t₁ n)) fun _ _ => trivial
  rw [wp_bind, wp_onServ, modifyOpen, wp_modify, wp_bind]
  refine hfill _ _ fun t₃ _ _ => ?_
  exact (wp_sendPage _ e fd).mono (fun _ _ h => h.2) (fun _ _ h => h.elim) fun _ _ => trivial

/-- The first request of `open`: granted, the process has a page that it did not have; refused, all
is as before. -/
lemma wp_openFd (he : e ≠ SERVER) (path : List Byte) (mode : Word) (page : Option ℕ) :
    wp (openFd e path mode page) s
      (fun fd s' => (s'.serv.spaces (e, pn fd)).isSome ∧ IsFilePage (pn fd) ∧
        s.serv.spaces (e, pn fd) = none)
      (fun _ s' => SamePages e s s') fun _ => True := by
  rw [openFd, wp_bind]
  refine (wp_fdAlloc e).mono ?_ (fun _ _ h _ _ => h ▸ rfl) fun _ _ => trivial
  rintro fd _ ⟨rfl, hpage, hnone⟩
  rw [wp_bind, fsipcOpen, wp_ite]
  refine ⟨fun _ _ _ => rfl, fun _ => ?_⟩
  exact (wp_serveOpen he path mode page fd).mono (fun _ _ h => ⟨h, hpage, hnone⟩)
    (fun _ _ h n _ => h n) fun _ _ => trivial

/-- **A failed `open` leaves the pages of the process as they were, unless it is refused a page
after its first request was granted.** -/
lemma openPath_iff (he : e ≠ SERVER) :
    AtomicAt (SamePages e) (openPath e path mode page) s ↔ ¬ OpenLosesFd e path mode page s := by
  refine wp.atomicAt_iff ?_
  rw [openPath, wp_bind]
  refine ((wp_openFd he path mode page).and (wp_self _ s)).mono ?_ ?_ ?_
  · rintro fd s₁ ⟨⟨hsome, hpage, hnone⟩, hok⟩
    have hloses : OpenLosesFd e path mode page s ↔ ∃ r t,
        forRange (fsipcMap e (s₁.filefd e fd).fileid (fd2data fd)) 0
          (blocksOf (s₁.filefd e fd).size) s₁ = .exit r t := by
      simp only [← leavesAt_iff]
      refine ⟨fun ⟨fd', s', hok', h⟩ => ?_, fun h => ⟨fd, s₁, hok, h⟩⟩
      cases hok.symm.trans hok'
      exact h
    rw [wp_bind, wp_get, wp_bind, hloses]
    refine ((wp_fsipcMaps e _ _ _ _).and (wp_self _ s₁)).mono ?_ ?_ ?_
    · rintro u s₂ ⟨-, hrun⟩ ⟨r, t, hexit⟩
      exact absurd (hrun.symm.trans hexit) nofun
    · rintro r s₂ ⟨hk, hrun⟩
      refine iff_of_false (fun hsame => ?_) (not_not.mpr ⟨r, s₂, hrun⟩)
      have hstill := hk.spaces _ hsome
      rw [hsame _ hpage, hnone] at hstill
      cases hstill
    · rintro p ⟨-, hrun⟩ ⟨r, t, hexit⟩
      exact absurd (hrun.symm.trans hexit) nofun
  · rintro r s₁ ⟨hsame, hexit⟩
    refine iff_of_true hsame ?_
    rintro ⟨fd', s', hok', -⟩
    exact absurd (hexit.symm.trans hok') nofun
  · rintro p ⟨-, hpanic⟩ ⟨fd', s', hok', -⟩
    exact absurd (hpanic.symm.trans hok') nofun

/-! ## `ftruncate` -/

lemma SameSizes.refl (e : ℕ) (fdnum : Word) (s : Site) : SameSizes e fdnum s s :=
  ⟨fun _ _ => rfl, fun _ _ => rfl, fun _ _ _ _ => rfl⟩

lemma wp_setSize (p : ℕ) (ff : FilefdPage) (size : Word) :
    wp (setSize p ff size) s
      (fun _ s' => s.serv.Accepts ff.fileid ∧ (s'.ffs p).size = size)
      (fun _ s' => s' = s.setFf p { ff with size := size } ∧ ¬ s.serv.Accepts ff.fileid)
      fun _ => s.serv.Accepts ff.fileid := by
  rw [setSize, wp_bind, wp_modify]
  refine (wp_serveSetSize ff.fileid size).mono ?_ (fun _ _ h => h) fun _ h => h
  rintro - s' ⟨hacc, hffs⟩
  refine ⟨hacc, ?_⟩
  rw [hffs]
  exact congrArg FilefdPage.size (setFf_ffs s p _)

lemma setSize_eq (p : ℕ) (ff : FilefdPage) (size : Word) (s : Site) :
    setSize p ff size s = serveSetSize ff.fileid size (s.setFf p { ff with size := size }) := rfl

/-- Nothing fails any more when pages are unmapped. -/
lemma wp_memUnmaps (e : ℕ) (va : Word) (lo n : ℕ) {c : Prop} (hc : c) :
    wp (forRange (fun p => memUnmapAt e (va + BitVec.ofNat 32 (BY2BLK * p))) lo n) s
      (fun _ _ => c) (fun _ _ => False) fun _ => c :=
  wp_forRange (fun _ _ => c) n lo hc fun p t _ _ _ => by
    rw [memUnmapAt, wp_ite]
    exact ⟨fun _ => hc, fun _ => hc⟩

/-- **A failed `ftruncate` leaves the sizes and the pages as they were, unless it is refused
something after it has stored a new size.** -/
lemma ftruncate_iff :
    AtomicAt (SameSizes e fdnum) (ftruncate e fdnum size) s ↔
    ¬ TruncateKeepsSize e fdnum size s := by
  refine wp.atomicAt_iff ?_
  rw [ftruncate, wp_ite]
  refine ⟨fun hlarge => iff_of_true (.refl e fdnum s) fun h => ?_, fun hle => ?_⟩
  · exact absurd h.1 (not_le.mpr hlarge)
  rw [wp_bind, wp_get]
  cases hfd : s.serv.spaces.fdLookup e fdnum with
  | none =>
      refine iff_of_true (.refl e fdnum s) fun ⟨_, m, hm, _⟩ => ?_
      exact absurd (hfd.symm.trans hm) nofun
  | some m =>
      have hkeeps : TruncateKeepsSize e fdnum size s ↔ (s.ffs m.page).devId = DEVFILE ∧
          (¬ s.serv.Accepts (s.ffs m.page).fileid ∧ size ≠ (s.ffs m.page).size ∨
            RollsBack e fdnum size m s) := by
        refine ⟨fun ⟨_, m', hm', h⟩ => ?_, fun h => ⟨not_lt.mp hle, m, hfd, h⟩⟩
        obtain rfl := Option.some.inj (hfd.symm.trans hm')
        exact h
      rw [hkeeps]
      dsimp only
      generalize hff : s.ffs m.page = ff
      rw [wp_ite]
      refine ⟨fun hdev => iff_of_true (.refl e fdnum s) fun h => hdev h.1, fun hdev => ?_⟩
      rw [not_not] at hdev
      rw [wp_bind]
      refine ((wp_setSize m.page ff size).and (wp_self _ s)).mono ?_ ?_ ?_
      · rintro u s₁ ⟨⟨hacc, hsize⟩, hok⟩
        -- the server has the new size, and so has the page of the descriptor
        have hrolls : (ff.devId = DEVFILE ∧ (¬ s.serv.Accepts ff.fileid ∧ size ≠ ff.size ∨
            RollsBack e fdnum size m s)) ↔ ∃ r t,
              forRange (fsipcMap e ff.fileid (fd2data (index2fd fdnum))) (pagesOf ff.size)
                (pagesOf size - pagesOf ff.size) s₁ = .exit r t ∧
              ∀ p, serveSetSize ff.fileid ff.size t ≠ .panic p := by
          rw [RollsBack, hff]
          simp only [← leavesAt_iff]
          constructor
          · rintro ⟨-, ⟨hno, -⟩ | ⟨s', hok', h⟩⟩
            · exact absurd hacc hno
            · cases hok.symm.trans hok'
              exact h
          · exact fun h => ⟨hdev, .inr ⟨s₁, hok, h⟩⟩
        rw [hrolls, wp_bind, wp_attempt]
        refine ((wp_fsipcMaps e _ _ _ _).and (wp_self _ s₁)).mono ?_ ?_ ?_
        · rintro u s₂ ⟨-, hrun⟩
          refine (wp_memUnmaps e _ _ _ ?_).mono (fun _ _ h => h) (fun _ _ h => h.elim) fun _ h => h
          rintro ⟨r, t, hexit, -⟩
          exact absurd (hrun.symm.trans hexit) nofun
        · rintro r s₂ ⟨hk, hrun⟩
          have hgrows : size ≠ ff.size := by
            rintro rfl
            rw [Nat.sub_self, forRange_zero] at hrun
            cases hrun
          have htrace : ∀ s₃ : Site, s₃.ffs = s₂.ffs → ¬ SameSizes e fdnum s s₃ := by
            intro s₃ hffs hsame
            have hclient := hsame.client m hfd
            rw [hffs, hk.ffs, hsize, hff] at hclient
            exact hgrows hclient
          rw [wp_bind, wp_attempt]
          refine ((wp_serveSetSize ff.fileid ff.size).and (wp_self _ s₂)).mono ?_ ?_ ?_
          · rintro u s₃ ⟨⟨-, hffs⟩, hok₃⟩
            refine iff_of_false (htrace s₃ hffs) (not_not.mpr ⟨r, s₂, hrun, fun p hpanic => ?_⟩)
            exact absurd (hok₃.symm.trans hpanic) nofun
          · rintro r' s₃ ⟨⟨rfl, -⟩, hexit₃⟩
            refine iff_of_false (htrace s₃ rfl) (not_not.mpr ⟨r, s₃, hrun, fun p hpanic => ?_⟩)
            exact absurd (hexit₃.symm.trans hpanic) nofun
          · rintro p ⟨-, hpanic⟩ ⟨r', t, hexit, hno⟩
            cases hrun.symm.trans hexit
            exact hno p hpanic
        · rintro p ⟨-, hrun⟩ ⟨r, t, hexit, -⟩
          exact absurd (hrun.symm.trans hexit) nofun
      · rintro r s₁ ⟨⟨rfl, hno⟩, hexit⟩
        have hpage : ((s.setFf m.page { ff with size := size }).ffs m.page).size = size :=
          congrArg FilefdPage.size (setFf_ffs s m.page _)
        constructor
        · rintro hsame ⟨-, ⟨-, hne⟩ | ⟨s', hok', -⟩⟩
          · have hclient := hsame.client m hfd
            rw [hpage, hff] at hclient
            exact hne hclient
          · rw [hff] at hok'
            exact absurd (hexit.symm.trans hok') nofun
        · intro hc
          have hsize : size = ff.size := by
            by_contra hne
            exact hc ⟨hdev, .inl ⟨hno, hne⟩⟩
          refine ⟨fun _ _ => rfl, fun m' hm' => ?_, fun _ _ _ _ => rfl⟩
          obtain rfl := Option.some.inj (hfd.symm.trans hm')
          rw [hpage, hff, hsize]
      · rintro p ⟨hacc, hpanic⟩ ⟨-, ⟨hno, -⟩ | ⟨s', hok', -⟩⟩
        · exact hno hacc
        · rw [hff] at hok'
          exact absurd (hpanic.symm.trans hok') nofun

/-- **Failed calls leave no trace if and only if** `open` is not refused a page after its first
request was granted, and `ftruncate` is refused nothing after it has stored a new size. -/
theorem failed_calls_iff (he : e ≠ SERVER) :
    (AtomicAt (SamePages e) (openPath e path mode page) s ↔ ¬ OpenLosesFd e path mode page s) ∧
      (AtomicAt (SameSizes e fdnum) (ftruncate e fdnum size) s ↔
        ¬ TruncateKeepsSize e fdnum size s) :=
  ⟨openPath_iff he, ftruncate_iff⟩

/-- What `open_lookup` finds. -/
lemma lookupFile_eq {f : FileRef} (hacc : s.serv.Accepts fileid)
    (hfile : (s.serv.opentab (fileid.toNat % MAXOPEN)).oFile = some f) :
    lookupFile fileid s = .ok f s := by
  obtain ⟨i, hi⟩ := hacc
  obtain ⟨-, rfl, -⟩ := openLookup_eq_ok_iff.mp hi
  have hserv : onServ (openLookup fileid) s = .ok (fileid.toNat % MAXOPEN) s := by
    rw [onServ, hi]
  change Prog.bind (onServ (openLookup fileid)) _ s = _
  rw [Prog.bind, hserv]
  change (match (s.serv.opentab (fileid.toNat % MAXOPEN)).oFile with
    | some f => pure f | none => panic .assert : SiteM FileRef) s = _
  rw [hfile]
  rfl

lemma serveSetSize_eq {f : FileRef} (h : lookupFile fileid s = .ok f s) (size : Word) :
    serveSetSize fileid size s = onFs (fileSetSize f size) s := by
  change Prog.bind (lookupFile fileid) _ s = _
  rw [Prog.bind, h]

lemma serveMap_exit {f : FileRef} {t : Server} {r : FsErr} {offset dstva : Word}
    (h : lookupFile fileid s = .ok f s)
    (hget : fileGetBlock f (offset.toNat / BY2BLK) s.fs = .exit r t) :
    serveMap e fileid offset dstva s = .exit (-r.toWord) (s.ran t) := by
  change Prog.bind (lookupFile fileid) (fun f => Prog.bind (onFs _) _) s = _
  rw [Prog.bind, h]
  change Prog.bind (onFs _) _ s = _
  rw [Prog.bind, onFs, hget]

/-- A page is refused, and the server goes back to the old size. -/
lemma ftruncate_rolledBack {m : Mapping} {ff : FilefdPage} {s₁ t : Site} {r : Word}
    (hle : ¬ MAXFILESIZE < size.toNat) (hfd : s.serv.spaces.fdLookup e fdnum = some m)
    (hff : s.ffs m.page = ff) (hdev : ff.devId = DEVFILE)
    (hset : setSize m.page ff size s = .ok () s₁)
    (hmaps : forRange (fsipcMap e ff.fileid (fd2data (index2fd fdnum))) (pagesOf ff.size)
      (pagesOf size - pagesOf ff.size) s₁ = .exit r t)
    (hback : serveSetSize ff.fileid ff.size t = .ok () s') :
    ftruncate e fdnum size s = .exit r s' := by
  have hwp : wp (ftruncate e fdnum size) s (fun _ _ => False) (fun r₁ t₁ => r₁ = r ∧ t₁ = s')
      fun _ => False := by
    rw [ftruncate, if_neg hle, wp_bind, wp_get, hfd]
    dsimp only
    rw [hff, if_neg (not_not.mpr hdev), wp_bind, wp_of_ok hset, wp_bind, wp_attempt, wp, hmaps]
    dsimp only
    rw [wp_bind, wp_attempt, wp_of_ok hback, wp_exit]
    exact ⟨rfl, rfl⟩
  obtain ⟨_, _, hrun, rfl, rfl⟩ := hwp.exists_exit
  exact hrun

end

/-! ## A disk with two free blocks -/

/-- The empty file "a" of `oneFileDisk` is open as descriptor 0 of env 2, with its Filefd in page 7,
which is mapped in the process and in the server and nowhere else. -/
structure Opened (s : Site) : Prop where
  opentab : s.serv.opentab 0 = ⟨some (.entry 3 0), 1024#32, O_RDWR⟩
  page : ∀ x, s.serv.spaces.target x = some 7 ↔ x = (2, fdPage 0) ∨ x = (SERVER, offPage 0)
  frames : ∀ b, s.frames b ≠ 7

namespace Opened

variable {s : Site} {t : Server} {ff : FilefdPage} {size va : Word} {b p : ℕ}

lemma accepts (h : s.Opened) : s.serv.Accepts 1024#32 := by
  refine Serv.accepts_iff.mpr ⟨?_, ?_⟩
  · have hpage : s.serv.ffPage 0 = some 7 := (h.page (SERVER, offPage 0)).mpr (.inr rfl)
    have hrefs : s.serv.spaces.refs 7 = 2 := by
      rw [Spaces.refs, RefGraph.refs]
      have hset : Spaces.slots.filter (fun x => s.serv.spaces.target x = some 7) =
          {(2, fdPage 0), (SERVER, offPage 0)} := by
        ext x
        rw [Finset.mem_filter, Finset.mem_insert, Finset.mem_singleton, Spaces.mem_slots, h.page]
        refine ⟨And.right, fun hx => ⟨?_, hx⟩⟩
        rcases hx with rfl | rfl <;> exact ⟨by decide, by decide⟩
      rw [hset]
      decide
    change s.serv.pageref 0 ≠ 1#16
    rw [Serv.pageref_eq (by decide), hpage]
    dsimp only
    rw [hrefs]
    decide
  · change (s.serv.opentab 0).oFileid = _
    rw [h.opentab]

lemma lookupFile (h : s.Opened) : lookupFile 1024#32 s = .ok (.entry 3 0) s := by
  refine lookupFile_eq h.accepts ?_
  change (s.serv.opentab 0).oFile = _
  rw [h.opentab]

lemma setFf (h : s.Opened) : (s.setFf 7 ff).Opened := ⟨h.opentab, h.page, h.frames⟩

/-- Loading blocks does not touch page 7. -/
lemma ran (h : s.Opened) : (s.ran t).Opened := by
  refine ⟨h.opentab, fun x => ?_, h.frames⟩
  rw [← h.page x]
  change Option.map _ (s.loaded t x) = _ ↔ _
  rw [loaded]
  split_ifs with hx
  · refine iff_of_false (fun hc => h.frames _ (Option.some.inj hc)) ?_
    rw [Spaces.target, hx.2.1]
    exact Option.some_ne_none 7 ∘ Eq.symm
  · rfl

/-- A block that is in the cache is mapped, and not at page 7. -/
lemma block (h : s.Opened) (hm : (t.cache b).isSome) (hb : b < MAXBLOCKS) :
    ∃ m, (s.ran t).serv.spaces (SERVER, pn (blockVa b)) = some m ∧ m.page ≠ 7 := by
  have hpn : pn (blockVa b) = blockPage b := by
    simp only [MAXBLOCKS] at hb
    rw [pn_eq, blockVa, BitVec.toNat_add, BitVec.toNat_ofNat, blockPage,
      show DISKMAP.toNat = 0x10000000 by decide, BY2BLK]
    omega
  have hsome : ((s.ran t).serv.spaces (SERVER, blockPage b)).isSome := by
    change (s.loaded t _).isSome
    rw [loaded]
    split_ifs with hc
    · rfl
    · by_contra hnone
      refine hc ⟨rfl, Option.not_isSome_iff_eq_none.mp hnone, ?_, ?_, ?_⟩
      · exact Nat.add_le_add_left (Nat.zero_le b) _
      · exact Nat.add_lt_add_left hb _
      · rwa [blockPage, blockPage, Nat.add_zero, Nat.add_sub_cancel_left]
  obtain ⟨m, hm⟩ := Option.isSome_iff_exists.mp hsome
  rw [hpn]
  refine ⟨m, hm, fun h7 => ?_⟩
  have hx := (h.ran.page (SERVER, blockPage b)).mp (by rw [Spaces.target, hm, Option.map_some, h7])
  rcases hx with hx | hx
  · exact absurd (Prod.mk.inj hx).1 (by decide)
  · have heq := (Prod.mk.inj hx).2
    simp only [blockPage, offPage, MAXBLOCKS] at heq hb
    omega

/-- The size is set. -/
lemma setsSize (h : s.Opened) (hset : fileSetSize (.entry 3 0) size s.fs = .ok () t) :
    serveSetSize 1024#32 size s = .ok () (s.ran t) := by
  rw [serveSetSize_eq h.lookupFile, onFs, hset]

/-- A page of the file is mapped in the process. -/
lemma maps (h : s.Opened) (hget : fileGetBlock (.entry 3 0) p s.fs = .ok b t)
    (hm : (t.cache b).isSome) (hb : b < MAXBLOCKS) (hp : p < 1024) :
    ∃ s', fsipcMap 2 1024#32 (fd2data (index2fd 0#32)) p s = .ok () s' ∧ s'.Opened ∧ s'.fs = t ∧
      s.Keeps s' ∧ (s'.serv.spaces (2, dataPage 0 + p)).isSome := by
  obtain ⟨m, hpage, h7⟩ := h.block hm hb
  have hdst : pn (fd2data (index2fd 0#32) + BitVec.ofNat 32 (BY2BLK * p)) = dataPage 0 + p := by
    rw [show BY2BLK * p = p * 4096 from Nat.mul_comm _ _]
    exact pn_window (by decide) hp
  have hwin : (fd2data (index2fd 0#32) + BitVec.ofNat 32 (BY2BLK * p)).toNat =
      0x60000000 + 4096 * p := by
    rw [BitVec.toNat_add, BitVec.toNat_ofNat, fd2data_toNat (by decide), BY2BLK]
    simp only [BitVec.toNat_ofNat]
    omega
  have hsrc : (blockVa b).toNat = 0x10000000 + 4096 * b := by
    simp only [MAXBLOCKS] at hb
    rw [blockVa, BitVec.toNat_add, BitVec.toNat_ofNat, show DISKMAP.toNat = 0x10000000 by decide,
      BY2BLK]
    omega
  have hlegal : ∀ {va : Word}, 0x10000000 ≤ va.toNat → va.toNat < 0x70000000 →
      ¬ isIllegalVa va = true := by
    intro va hlo hhi
    rw [isIllegalVa, decide_eq_true_eq, BitVec.lt_def, BitVec.le_def,
      show UTEMP.toNat = 0x3FE000 by decide, show UTOP.toNat = 0x7F400000 by decide]
    omega
  simp only [MAXBLOCKS] at hb
  set S := Function.update (s.ran t).serv.spaces (2, dataPage 0 + p)
    (some ⟨m.page, pteBits (entryFlags ((PTE_W ||| PTE_LIBRARY) ||| PTE_U))⟩) with hS
  have hmem : (s.ran t).serv.spaces.memMap SERVER (blockVa b) 2
      (fd2data (index2fd 0#32) + BitVec.ofNat 32 (BY2BLK * p))
        (PTE_W ||| PTE_LIBRARY) = some S := by
    rw [Spaces.memMap, if_neg (not_or.mpr ⟨hlegal (by omega) (by omega),
      hlegal (by omega) (by omega)⟩), hpage, hdst]
    rfl
  have hsend : sendPage (blockVa b) 2 (fd2data (index2fd 0#32) + BitVec.ofNat 32 (BY2BLK * p))
      (s.ran t) = .ok () { s.ran t with serv := { (s.ran t).serv with spaces := S } } := by
    change (match (s.ran t).serv.spaces.memMap _ _ _ _ _ with
      | some spaces => set { s.ran t with serv := { (s.ran t).serv with spaces := spaces } }
      | none => panic .assert : SiteM Unit) (s.ran t) = _
    rw [hmem]
    rfl
  have hoffset : (BitVec.ofNat 32 (BY2BLK * p)).toNat / BY2BLK = p := by
    rw [BitVec.toNat_ofNat, BY2BLK]
    omega
  refine ⟨{ s.ran t with serv := { (s.ran t).serv with spaces := S } }, ?_,
    ⟨h.opentab, fun x => ?_, h.frames⟩, rfl, (keeps_ran s t).trans ⟨rfl, fun x hx => ?_⟩, ?_⟩
  · change Prog.bind (Site.lookupFile 1024#32) (fun f => Prog.bind (onFs _) _) s = _
    rw [Prog.bind, h.lookupFile]
    change Prog.bind (onFs _) _ s = _
    rw [Prog.bind, onFs, hoffset, hget]
    exact hsend
  · rw [← h.ran.page x]
    change Option.map _ (S x) = _ ↔ _
    rw [hS, Function.update_apply]
    split_ifs with hx
    · -- the page of the window is not that of the descriptor
      subst hx
      refine iff_of_false (fun hc => h7 (Option.some.inj hc)) fun hc => ?_
      rcases (h.ran.page _).mp hc with hc | hc
      · have heq := (Prod.mk.inj hc).2
        simp only [dataPage, fdPage] at heq
        omega
      · exact absurd (Prod.mk.inj hc).1 (by decide)
    · rfl
  · change (S x).isSome
    rw [hS, Function.update_apply]
    split_ifs
    · rfl
    · exact hx
  · change (S _).isSome
    rw [hS, Function.update_self]
    rfl

end Opened

/-- The blocks 4 and 5 are free, and the server has loaded no data. -/
def oneFileSite : Site where
  serv :=
    { spaces := fun x => if x = (2, fdPage 0) ∨ x = (SERVER, offPage 0) then
        some ⟨7, PTE_V ||| PTE_U ||| PTE_R ||| PTE_W ||| PTE_LIBRARY⟩ else none
      opentab := fun i => if i = 0 then ⟨some (.entry 3 0), 1024#32, O_RDWR⟩
        else ⟨none, BitVec.ofNat 32 i, 0#32⟩ }
  fs := ⟨oneFileDisk, fun b => if b < 4 then some (oneFileDisk b) else none, true,
    true, fun _ => true⟩
  ffs := fun _ => ⟨DEVFILE, 1024#32, 0#32⟩
  frames := fun b => 100 + b

lemma opened_oneFileSite : oneFileSite.Opened := by
  refine ⟨rfl, fun x => ?_, fun b => ?_⟩
  · change Option.map _ (if _ then _ else _) = _ ↔ _
    split_ifs with hx
    · exact iff_of_true rfl hx
    · exact iff_of_false nofun hx
  · change 100 + b ≠ 7
    omega

/-- The size is set, two blocks are taken, there is none for the third page, and the size is set
back. -/
lemma oneFileSite_run : ∃ t₁ t₂ t₃ t₄ t₅ : Server,
    fileSetSize (.entry 3 0) 12288#32 oneFileSite.fs = .ok () t₁ ∧
    fileGetBlock (.entry 3 0) 0 t₁ = .ok 4 t₂ ∧ (t₂.cache 4).isSome ∧
    fileGetBlock (.entry 3 0) 1 t₂ = .ok 5 t₃ ∧ (t₃.cache 5).isSome ∧
    fileGetBlock (.entry 3 0) 2 t₃ = .exit .noDisk t₄ ∧
    fileSetSize (.entry 3 0) 0#32 t₄ = .ok () t₅ := by
  have hrun : ((fileSetSize (.entry 3 0) 12288#32 oneFileSite.fs).returned fun _ t₁ =>
      (fileGetBlock (.entry 3 0) 0 t₁).returned fun b t₂ => b = 4 && (t₂.cache 4).isSome &&
        (fileGetBlock (.entry 3 0) 1 t₂).returned fun b t₃ => b = 5 && (t₃.cache 5).isSome &&
          (fileGetBlock (.entry 3 0) 2 t₃).exited fun e t₄ => e = .noDisk &&
            (fileSetSize (.entry 3 0) 0#32 t₄).returned fun _ _ => true) = true := by
    decide +kernel
  obtain ⟨_, t₁, h₁, hrun⟩ := Outcome.returned_iff.mp hrun
  obtain ⟨b, t₂, h₂, hrun⟩ := Outcome.returned_iff.mp hrun
  simp only [Bool.and_eq_true, decide_eq_true_eq] at hrun
  obtain ⟨⟨rfl, hm₂⟩, hrun⟩ := hrun
  obtain ⟨b, t₃, h₃, hrun⟩ := Outcome.returned_iff.mp hrun
  simp only [Bool.and_eq_true, decide_eq_true_eq] at hrun
  obtain ⟨⟨rfl, hm₃⟩, hrun⟩ := hrun
  obtain ⟨e, t₄, h₄, hrun⟩ := Outcome.exited_iff.mp hrun
  simp only [Bool.and_eq_true, decide_eq_true_eq] at hrun
  obtain ⟨rfl, hrun⟩ := hrun
  obtain ⟨_, t₅, h₅, -⟩ := Outcome.returned_iff.mp hrun
  exact ⟨t₁, t₂, t₃, t₄, t₅, h₁, h₂, hm₂, h₃, hm₃, h₄, h₅⟩

/-- **Extending a file to three pages on a disk with two free blocks**: the call fails, and leaves
two pages mapped and the new size in the descriptor. -/
lemma ftruncate_oneFileSite : ∃ r s', ftruncate 2 0#32 12288#32 oneFileSite = .exit r s' ∧
    (s'.ffs 7).size = 12288#32 ∧ (s'.serv.spaces (2, dataPage 0 + 0)).isSome ∧
    (s'.serv.spaces (2, dataPage 0 + 1)).isSome := by
  obtain ⟨t₁, t₂, t₃, t₄, t₅, h₁, h₂, hm₂, h₃, hm₃, h₄, h₅⟩ := oneFileSite_run
  -- the size is stored, and the first two pages are mapped
  obtain ⟨s₁, hset, hs₁, rfl, hff⟩ : ∃ s₁, setSize 7 ⟨DEVFILE, 1024#32, 0#32⟩ 12288#32 oneFileSite =
      .ok () s₁ ∧ s₁.Opened ∧ s₁.fs = t₁ ∧ (s₁.ffs 7).size = 12288#32 := by
    have hopen : (oneFileSite.setFf 7 ⟨DEVFILE, 1024#32, 12288#32⟩).Opened :=
      opened_oneFileSite.setFf
    refine ⟨_, ?_, hopen.ran, rfl, congrArg FilefdPage.size (setFf_ffs oneFileSite 7 _)⟩
    rw [setSize_eq]
    exact hopen.setsSize h₁
  obtain ⟨s₂, hmap₀, hs₂, rfl, hk₂, hpage₀⟩ := hs₁.maps h₂ hm₂ (by decide) (by decide)
  obtain ⟨s₃, hmap₁, hs₃, rfl, hk₃, hpage₁⟩ := hs₂.maps h₃ hm₃ (by decide) (by decide)
  -- the third is refused, and the old size is asked for
  have hmap₂ : fsipcMap 2 1024#32 (fd2data (index2fd 0#32)) 2 s₃ =
      .exit (-FsErr.noDisk.toWord) (s₃.ran t₄) := serveMap_exit hs₃.lookupFile h₄
  have hback : serveSetSize 1024#32 0#32 (s₃.ran t₄) = .ok () ((s₃.ran t₄).ran t₅) :=
    hs₃.ran.setsSize h₅
  have hmaps : forRange (fsipcMap 2 1024#32 (fd2data (index2fd 0#32))) (pagesOf 0#32)
      (pagesOf 12288#32 - pagesOf 0#32) s₁ = .exit (-FsErr.noDisk.toWord) (s₃.ran t₄) := by
    rw [show pagesOf 12288#32 - pagesOf 0#32 = 3 by decide, show pagesOf 0#32 = 0 by decide]
    refine leavesAt_iff.mp ⟨2, by decide, s₃, ?_, hmap₂⟩
    have hwp : wp (forRange (fsipcMap 2 1024#32 (fd2data (index2fd 0#32))) 0 2) s₁
        (fun _ s' => s' = s₃) (fun _ _ => False) fun _ => False := by
      rw [forRange_succ, wp_bind, wp_of_ok hmap₀, forRange_succ, wp_bind, wp_of_ok hmap₁,
        forRange_zero, wp_pure]
    obtain ⟨_, s', hrun, rfl⟩ := hwp.exists_ok
    exact hrun
  have hfd : oneFileSite.serv.spaces.fdLookup 2 0#32 =
      some ⟨7, PTE_V ||| PTE_U ||| PTE_R ||| PTE_W ||| PTE_LIBRARY⟩ := rfl
  have hff₀ : oneFileSite.ffs 7 = ⟨DEVFILE, 1024#32, 0#32⟩ := rfl
  have hrun := ftruncate_rolledBack (by decide) hfd hff₀ rfl hset hmaps hback
  have hk := (hk₂.trans hk₃).trans ((keeps_ran s₃ t₄).trans (keeps_ran _ t₅))
  refine ⟨_, _, hrun, ?_, ?_, ?_⟩
  · rw [hk.ffs]
    exact hff
  · exact ((keeps_ran s₃ t₄).trans (keeps_ran _ t₅)).spaces _ (hk₃.spaces _ hpage₀)
  · exact ((keeps_ran s₃ t₄).trans (keeps_ran _ t₅)).spaces _ hpage₁

/-- **Extending the file to three pages** fails, and the descriptor has the new size. -/
theorem ftruncate_keeps_size : ∃ e fdnum size s, e ≠ SERVER ∧
    ¬ AtomicAt (SameSizes e fdnum) (ftruncate e fdnum size) s := by
  refine ⟨2, 0#32, 12288#32, oneFileSite, by decide, fun hatomic => ?_⟩
  obtain ⟨r, s', hrun, hsize, -⟩ := ftruncate_oneFileSite
  have hsame := (hatomic r s' hrun).client _ rfl
  exact absurd (hsize.symm.trans hsame) (by decide)

/-- Opening the file once more, and extending it to three pages: it is refused the third after two
have been mapped. -/
theorem failed_calls_iff_oneFileSite :
    (AtomicAt (SamePages 2) (openPath 2 [0x61#8] O_RDWR none) oneFileSite ↔
      ¬ OpenLosesFd 2 [0x61#8] O_RDWR none oneFileSite) ∧
    TruncateKeepsSize 2 0#32 12288#32 oneFileSite ∧
    ∃ r s', ftruncate 2 0#32 12288#32 oneFileSite = .exit r s' ∧ (s'.ffs 7).size = 12288#32 ∧
      (s'.serv.spaces (2, dataPage 0 + 0)).isSome ∧
      (s'.serv.spaces (2, dataPage 0 + 1)).isSome := by
  obtain ⟨hopen, htrunc⟩ :=
    @failed_calls_iff 2 oneFileSite 12288#32 0#32 [0x61#8] O_RDWR none (by decide)
  obtain ⟨r, s', hrun, hsize, hpages⟩ := ftruncate_oneFileSite
  refine ⟨hopen, ?_, r, s', hrun, hsize, hpages⟩
  -- the size of the descriptor is not as before
  by_contra hnot
  have hsame := (htrunc.mpr hnot r s' hrun).client _ rfl
  exact absurd (hsize.symm.trans hsame) (by decide)

end Site

end MosRv.Fs
