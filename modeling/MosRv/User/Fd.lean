import MosRv.Fs.OpenTable
import MosRv.User.Process

/-!
# File descriptors (`user/lib/fd.c`)

`fd_alloc` and `fd_lookup` find the `struct Fd` page of a number, `close`, `dup`, `read`, `write`,
`seek`, `fstat` and `ftruncate` begin with `fd_lookup`, and then the device in the page decides what
is done.  What the devices do when they are closed is here (`file_close`, `cons_close`,
`pipe_close`); how they read, write and describe themselves is a parameter (`Io`).

`fd_lookup` compares a number as an `int` with `MAXFD` and not with 0.  The loop of `fd_alloc` ends
before `MAXFD - 1`.
-/

namespace MosRv.Fd

open Prog
open Fs (MAXFILESIZE O_RDONLY O_WRONLY O_ACCMODE E_NO_DISK)

/-! ## Devices -/

/-- What is left open of a device; `addr` is where its `struct Dev` is. -/
structure DevIo where
  addr : Word
  read : (fd buf n offset : Word) → ProcM Word
  write : (fd buf n offset : Word) → ProcM Word
  stat : (fd stat : Word) → ProcM Word

structure Dev extends DevIo where
  devId : Word
  close : (fd : Word) → ProcM Word

structure Io where
  file : DevIo
  cons : DevIo
  pipe : DevIo

/-! ### The fields of a `struct Fd`, and those behind it in a `struct Filefd` -/

def fdDevId (fd : Word) : Word := fd
def fdOffset (fd : Word) : Word := fd + 4#32
def fdOmode (fd : Word) : Word := fd + 8#32
def fFileid (fd : Word) : Word := fd + 12#32
def fSize (fd : Word) : Word := fd + 144#32

/-- More rounds than a loop over the pages of an address space has. -/
def rounds : ℕ := 2 ^ 20

def fileClose (fd : Word) : ProcM Word := do
  let fileid ← loadWord (fFileid fd)
  let size ← loadWord (fSize fd)
  let va := fd2data fd
  -- tell the file server the dirty pages
  let _ ← whileDo .outOfFuel (fun i => i < size) (fun i => do
    let _ ← attempt (fsipcDirty fileid i)
    pure (i + BY2PG)) rounds 0#32
  -- "cannot close the file": the pages stay
  let _ ← fsipcClose fileid
  if size = 0#32 then pure 0#32
  else do
    let _ ← whileDo .outOfFuel (fun i => i < size) (fun i => do
      syscallMemUnmap (va + i)
      pure (i + BY2PG)) rounds 0#32
    pure 0#32

def consClose (_fd : Word) : ProcM Word := pure 0#32

def pipeClose (fd : Word) : ProcM Word := do
  let _ ← attempt (syscallMemUnmap fd)
  let _ ← attempt (syscallMemUnmap (fd2data fd))
  pure 0#32

def devfile (io : Io) : Dev := { io.file with devId := 102#32, close := fileClose }
def devcons (io : Io) : Dev := { io.cons with devId := 99#32, close := consClose }
def devpipe (io : Io) : Dev := { io.pipe with devId := 112#32, close := pipeClose }

def devtab (io : Io) : List Dev := [devfile io, devcons io, devpipe io]

def devLookup (io : Io) (id : Word) : ProcM Dev :=
  match (devtab io).find? fun dev => dev.devId = id with
  | some dev => pure dev
  | none => exit (-E_INVAL)

/-! ## Numbers -/

/-- The address of the first `struct Fd` page that is not mapped. -/
def fdAlloc : ProcM Word :=
  iter .outOfFuel (fun fdno => do
    if fdno < MAXFD - 1 then do
      let va := index2fd (BitVec.ofNat 32 fdno)
      if !(← readVpd (PDX va)) then pure (.inr va)
      else if (← readVpt (VPN va)).isNone then pure (.inr va)
      else pure (.inl (fdno + 1))
    else exit (-E_MAX_OPEN)) MAXFD 0

def fdLookup (fdnum : Word) : ProcM Word :=
  if (MAXFD : ℤ) ≤ fdnum.toInt then exit (-E_INVAL)
  else do
    let va := index2fd fdnum
    if (← readVpt (VPN va)).isSome then pure va
    else exit (-E_INVAL)

def fdClose (fd : Word) : ProcM Unit := do
  let _ ← attempt (syscallMemUnmap fd)

/-! ## Calls -/

/-- `r` is what a function returned whose result the caller returns. -/
def giveBack (r : Except Word Word) : ProcM Word :=
  match r with
  | .ok r => pure r
  | .error e => exit e

def close (io : Io) (fdnum : Word) : ProcM Word := do
  let fd ← fdLookup fdnum
  let dev ← devLookup io (← loadWord (fdDevId fd))
  let r ← attempt (dev.close fd)
  fdClose fd
  giveBack r

/-- The flags that `dup` keeps, as `vpt` shows them. -/
def keptFlags (pte : Option Word) : Word := pte.getD 0#32 &&& (PTE_W ||| PTE_LIBRARY)

/-- `ova + i`, `nva + i`: page `i` of a window. -/
def pageOf (va : Word) (i : ℕ) : Word := va + BitVec.ofNat 32 (i * 4096)

/-- The part of `dup` that copies page `i` of the window. -/
def dupPage (ova nva : Word) (i : ℕ) : ProcM Unit := do
  let pte ← readVpt (VPN (pageOf ova i))
  if pte.isSome then syscallMemMap (pageOf ova i) (pageOf nva i) (keptFlags pte) else pure ()

def dupWindow (ova nva : Word) : ProcM Unit := do
  let table ← readVpd (PDX ova)
  if table then forRange (dupPage ova nva) 0 1024 else pure ()

/-- The part of `dup` that maps the `struct Fd` page. -/
def dupFd (oldfd newfd : Word) : ProcM Unit := do
  let pte ← readVpt (VPN oldfd)
  syscallMemMap oldfd newfd (keptFlags pte)

/-- `dup` from the copy of the window on. -/
def dupPages (oldfd newfd : Word) : ProcM Unit := do
  dupWindow (fd2data oldfd) (fd2data newfd)
  dupFd oldfd newfd

/-- `err:` of `dup`. -/
def dupUndo (newfd : Word) : ProcM Unit := do
  let _ ← attempt (syscallMemUnmap newfd)
  forRange (fun i => do
    let _ ← attempt (syscallMemUnmap (pageOf (fd2data newfd) i))) 0 1024

def dup (io : Io) (oldfdnum newfdnum : Word) : ProcM Word := do
  let oldfd ← fdLookup oldfdnum
  let _ ← attempt (close io newfdnum)
  let newfd := index2fd newfdnum
  onError (dupPages oldfd newfd) (dupUndo newfd)
  pure newfdnum

def read (io : Io) (fdnum buf n : Word) : ProcM Word := do
  let fd ← fdLookup fdnum
  let dev ← devLookup io (← loadWord (fdDevId fd))
  if (← loadWord (fdOmode fd)) &&& O_ACCMODE = O_WRONLY then exit (-E_INVAL)
  else do
    let r ← dev.read fd buf n (← loadWord (fdOffset fd))
    if 0 < r.toInt then modifyWord (fdOffset fd) (· + r)
    pure r

def write (io : Io) (fdnum buf n : Word) : ProcM Word := do
  let fd ← fdLookup fdnum
  let dev ← devLookup io (← loadWord (fdDevId fd))
  if (← loadWord (fdOmode fd)) &&& O_ACCMODE = O_RDONLY then exit (-E_INVAL)
  else do
    let r ← dev.write fd buf n (← loadWord (fdOffset fd))
    if 0 < r.toInt then modifyWord (fdOffset fd) (· + r)
    pure r

def seek (fdnum offset : Word) : ProcM Word := do
  let fd ← fdLookup fdnum
  storeWord (fdOffset fd) offset
  pure 0#32

def fstat (io : Io) (fdnum stat : Word) : ProcM Word := do
  let fd ← fdLookup fdnum
  let dev ← devLookup io (← loadWord (fdDevId fd))
  storeByte stat 0#8
  storeWord (stat + 128#32) 0#32
  storeWord (stat + 132#32) 0#32
  storeWord (stat + 136#32) dev.addr
  dev.stat fd stat

def ftruncate (fdnum size : Word) : ProcM Word :=
  if MAXFILESIZE < size.toNat then exit (-E_NO_DISK)
  else do
    let fd ← fdLookup fdnum
    if (← loadWord (fdDevId fd)) ≠ 102#32 then exit (-E_INVAL)
    else do
      let fileid ← loadWord (fFileid fd)
      let oldsize ← loadWord (fSize fd)
      storeWord (fSize fd) size
      let _ ← fsipcSetSize fileid size
      let va := fd2data fd
      -- map any new pages
      let _ ← whileDo .outOfFuel (fun i => i < ROUND size BY2PG) (fun i => do
        match ← attempt (fsipcMap fileid i (va + i)) with
        | .ok _ => pure (i + BY2PG)
        | .error r => do
            let _ ← attempt (fsipcSetSize fileid oldsize)
            exit r) rounds (ROUND oldsize BY2PG)
      -- unmap pages if the file got shorter
      let _ ← whileDo .outOfFuel (fun i => i < ROUND oldsize BY2PG) (fun i => do
        match ← attempt (syscallMemUnmap (va + i)) with
        | .ok () => pure (i + BY2PG)
        | .error _ => panic .userPanic) rounds (ROUND size BY2PG)
      pure 0#32

/-! ## Addresses of descriptors -/

section

variable {d i : ℕ}

lemma toNat_fd (hd : d < 32) : (BitVec.ofNat 32 d).toNat = d := by
  rw [BitVec.toNat_ofNat]
  omega

lemma fd_lt (hd : d < 32) : BitVec.ofNat 32 d < 32#32 := by
  rw [BitVec.lt_def, toNat_fd hd]
  exact hd

lemma pn_fd (hd : d < 32) : pn (index2fd (BitVec.ofNat 32 d)) = fdPage d := by
  rw [pn_index2fd (fd_lt hd), toNat_fd hd]

lemma fd_toNat (hd : d < 32) : (index2fd (BitVec.ofNat 32 d)).toNat = 0x5FC00000 + 4096 * d := by
  rw [index2fd_toNat (fd_lt hd), toNat_fd hd]

lemma fd_legal (hd : d < 32) : isIllegalVa (index2fd (BitVec.ofNat 32 d)) = false := by
  have h := fd_toNat hd
  exact not_illegal (by omega) (by omega)

lemma window_toNat (hd : d < 32) (hi : i < 1024) :
    (pageOf (fd2data (index2fd (BitVec.ofNat 32 d))) i).toNat =
      0x60000000 + 0x400000 * d + 4096 * i := by
  rw [pageOf, BitVec.toNat_add, fd2data_toNat (fd_lt hd), toNat_fd hd, BitVec.toNat_ofNat]
  omega

lemma pn_pageOf (hd : d < 32) (hi : i < 1024) :
    pn (pageOf (fd2data (index2fd (BitVec.ofNat 32 d))) i) = dataPage d + i := by
  rw [pageOf, pn_window (fd_lt hd) hi, toNat_fd hd]

lemma pageOf_legal (hd : d < 32) (hi : i < 1024) :
    isIllegalVa (pageOf (fd2data (index2fd (BitVec.ofNat 32 d))) i) = false := by
  have h := window_toNat hd hi
  exact not_illegal (by omega) (by omega)

lemma dataPage_ne_fdPage {e : ℕ} (he : e < 32) (i : ℕ) : dataPage d + i ≠ fdPage e := by
  unfold dataPage fdPage
  omega

lemma fdPage_inj {e : ℕ} (h : d ≠ e) : fdPage d ≠ fdPage e := by
  unfold fdPage
  omega

lemma pageOf_zero (va : Word) : pageOf va 0 = va := BitVec.add_zero va

lemma pn_data (hd : d < 32) : pn (fd2data (index2fd (BitVec.ofNat 32 d))) = dataPage d := by
  have h := pn_pageOf hd (Nat.zero_lt_succ 1023)
  rwa [pageOf_zero] at h

lemma data_legal (hd : d < 32) : isIllegalVa (fd2data (index2fd (BitVec.ofNat 32 d))) = false := by
  have h := pageOf_legal hd (Nat.zero_lt_succ 1023)
  rwa [pageOf_zero] at h

/-- A field of a `struct Fd` is in its page. -/
lemma pn_field (hd : d < 32) {k : ℕ} (hk : k < 4096) :
    pn (index2fd (BitVec.ofNat 32 d) + BitVec.ofNat 32 k) = fdPage d := by
  rw [pn_eq, BitVec.toNat_add, fd_toNat hd, BitVec.toNat_ofNat, fdPage]
  omega

lemma offset_field (hd : d < 32) {k : ℕ} (hk : k < 4096) :
    (index2fd (BitVec.ofNat 32 d) + BitVec.ofNat 32 k).toNat % 4096 / 4 = k / 4 := by
  rw [BitVec.toNat_add, fd_toNat hd, BitVec.toNat_ofNat]
  omega

end

/-! ## What `fd_alloc` and `fd_lookup` find -/

section

variable {s : Process} {d : ℕ}

lemma window_fd (hd : d < 32) :
    s.window (VPN (index2fd (BitVec.ofNat 32 d))) = some
    ((s.entry (fdPage d)).map Mapping.perm) := by
  have h := fd_toNat hd
  rw [window_of_lt (by omega), pn_fd hd]

lemma PDX_fd (hd : d < 32) : PDX (index2fd (BitVec.ofNat 32 d)) = fdPage d / 1024 := by
  rw [PDX_eq, fd_toNat hd, fdPage]
  omega

lemma entry_eq_none {p : ℕ} (h : s.tables (p / 1024) = false) : s.entry p = none := by
  by_contra hne
  rw [s.tables_of_entry (Option.isSome_iff_ne_none.mpr hne)] at h
  exact absurd h nofun

/-- The first `struct Fd` page that is not mapped. -/
def Process.FirstFree (s : Process) (d : ℕ) : Prop :=
  s.entry (fdPage d) = none ∧ ∀ j < d, (s.entry (fdPage j)).isSome

/-- **`fd_alloc` finds the first free page among the first 31.** -/
lemma wp_fdAlloc (s : Process) :
    wp fdAlloc s
      (fun va s' => s' = s ∧ ∃ d < 31, va = index2fd (BitVec.ofNat 32 d) ∧ s.FirstFree d)
      (fun e s' => s' = s ∧ e = -E_MAX_OPEN ∧ ∀ j < 31, (s.entry (fdPage j)).isSome)
      fun _ => False := by
  unfold fdAlloc
  apply wp_iter (fun d s' => s' = s ∧ d ≤ 31 ∧ ∀ j < d, (s.entry (fdPage j)).isSome)
    (fun d _ => 31 - d) _ ⟨rfl, Nat.zero_le _, fun j hj =>
      absurd hj (Nat.not_lt_zero j)⟩ (by decide)
  intro d t h
  obtain ⟨rfl, hle, hbelow⟩ := h
  rw [wp_ite]
  constructor
  · intro hlt
    have hd : d < 31 := hlt
    rw [wp_bind, wp_readVpd, PDX_fd (by omega), wp_ite]
    constructor
    · intro htable
      rw [Bool.not_eq_true'] at htable
      exact ⟨rfl, d, hd, rfl, entry_eq_none htable, hbelow⟩
    · intro _
      rw [wp_bind, wp_readVpt (window_fd (by omega)), wp_ite]
      constructor
      · intro hnone
        rw [Option.isNone_map, Option.isNone_iff_eq_none] at hnone
        exact ⟨rfl, d, hd, rfl, hnone, hbelow⟩
      · intro hsome
        rw [Option.isNone_map, Option.isNone_iff_eq_none, ← ne_eq,
          ← Option.isSome_iff_ne_none] at hsome
        refine ⟨⟨rfl, by omega, fun j hj => ?_⟩, by omega⟩
        obtain hj | rfl := Nat.lt_succ_iff_lt_or_eq.mp hj
        · exact hbelow j hj
        · exact hsome
  · intro hge
    have hge : 31 ≤ d := Nat.le_of_not_lt hge
    exact ⟨rfl, rfl, fun j hj => hbelow j (by omega)⟩

lemma toInt_fd (hd : d < 32) : (BitVec.ofNat 32 d).toInt = d := by
  rw [BitVec.toInt_eq_toNat_of_lt (by rw [toNat_fd hd]; omega), toNat_fd hd]

/-- In range, `fd_lookup` finds the page if it is mapped. -/
lemma wp_fdLookup {Q E : Word → Process → Prop} {P : Stop → Prop} (hd : d < 32) :
    wp (fdLookup (BitVec.ofNat 32 d)) s Q E P ↔
      ((s.entry (fdPage d)).isSome → Q (index2fd (BitVec.ofNat 32 d)) s) ∧
        (s.entry (fdPage d) = none → E (-E_INVAL) s) := by
  have hlt : ¬ (MAXFD : ℤ) ≤ (BitVec.ofNat 32 d).toInt := by
    rw [toInt_fd hd, MAXFD]
    omega
  rw [fdLookup, if_neg hlt, wp_bind, wp_readVpt (window_fd hd), Option.isSome_map, wp_ite, wp_pure,
    wp_exit, Bool.not_eq_true, Option.isSome_eq_false_iff, Option.isNone_iff_eq_none]

/-- A field of a `struct Fd` that is mapped. -/
lemma wp_loadField {Q E : Word → Process → Prop} {P : Stop → Prop} {k : ℕ}
    {m : Mapping} (hd : d < 32)
    (hk : k < 4096) (hm : s.entry (fdPage d) = some m) :
    wp (loadWord (index2fd (BitVec.ofNat 32 d) + BitVec.ofNat 32 k)) s Q E P ↔
      Q (s.mem m.page (k / 4)) s := by
  rw [← pn_field hd hk] at hm
  rw [wp_loadWord hm, offset_field hd hk]

lemma wp_loadDevId {Q E : Word → Process → Prop} {P : Stop → Prop} {m : Mapping} (hd : d < 32)
    (hm : s.entry (fdPage d) = some m) :
    wp (loadWord (fdDevId (index2fd (BitVec.ofNat 32 d)))) s Q E P ↔ Q (s.mem m.page 0) s := by
  have h := @wp_loadField s d Q E P 0 m hd (by decide) hm
  rwa [show BitVec.ofNat 32 0 = 0#32 from rfl, BitVec.add_zero] at h

/-- The devices that there are. -/
lemma wp_devLookup (io : Io) (id : Word) {Q : Dev → Process → Prop} {E : Word → Process → Prop}
    {P : Stop → Prop} :
    wp (devLookup io id) s Q E P ↔
      (id = 102#32 → Q (devfile io) s) ∧ (id = 99#32 → Q (devcons io) s) ∧
        (id = 112#32 → Q (devpipe io) s) ∧
        (id ≠ 102#32 → id ≠ 99#32 → id ≠ 112#32 → E (-E_INVAL) s) := by
  unfold devLookup devtab devfile devcons devpipe
  by_cases hf : id = 102#32
  · subst hf
    simp
  · by_cases hc : id = 99#32
    · subst hc
      simp
    · by_cases hp : id = 112#32
      · subst hp
        simp
      · simp [hf, hc, hp, Ne.symm hf, Ne.symm hc, Ne.symm hp]

end

end MosRv.Fd
