import MosRv.Fs.Runs

/-!
# File descriptors (`user/lib/file.c`, `user/lib/fd.c`)

An open file is a page with a `struct Filefd`: the file, a copy of its size, and the offset.
Descriptors that were made by `dup` or `fork` have the same page.  Each descriptor has a window of
addresses at which the pages of the file are mapped: the pages of the server's cache.  A page of a
window that is not mapped is filled with zeros by the kernel when it is touched; such a page is
private to the process, and what is in it is not followed.

A call is a sequence of requests to the server, one at a time, between which the calls of other
processes can go on (`Pc` says how far a call is).  `write` beyond the size that the descriptor
knows makes the file longer with `ftruncate`, which asks the server for an absolute size and then
for the new pages; only the descriptor that the call is made with gets them.
-/

namespace MosRv.Fs

open Prog View Reach

def MAXFILESIZE : ℕ := NINDIRECT * BY2BLK

/-- `ROUND(size, BY2PG) / BY2PG`. -/
def pagesOf (size : Word) : ℕ := ((size + 0xFFF#32) &&& ~~~0xFFF#32).toNat / BY2BLK

/-- The page with a `struct Filefd`. -/
structure Filefd where
  file : FileRef
  size : Word
  offset : Word
  rdonly : Bool

/-- What a `write` has still to do after the file is long enough: copy the bytes to an offset. -/
structure Copy where
  offset : Word
  buf : List Byte

/-- How far the call of a descriptor is. -/
inductive Pc
  | idle
  /-- `open` asks for page `p` next. -/
  | opening (p : ℕ)
  /-- `ftruncate` has stored the size and asks the server for it. -/
  | setSize (oldsize size : Word) (copy : Option Copy)
  /-- `ftruncate` asks for page `p` next. -/
  | mapping (p : ℕ) (oldsize size : Word) (copy : Option Copy)
  /-- A page could not be had; `ftruncate` asks the server for the old size. -/
  | rollback (oldsize : Word)
  | copying (copy : Copy)

structure Fd where
  /-- The page of the open file. -/
  ff : ℕ
  /-- The blocks whose pages are mapped in the window. -/
  window : ℕ → Option ℕ
  pc : Pc

structure Users where
  server : Server
  ffs : ℕ → Option Filefd
  fds : ℕ → Option Fd

inductive Call
  /-- `open` of a path: descriptor `i` gets the open file `k`. -/
  | openFd (i k : ℕ) (path : List Byte) (rdonly : Bool)
  /-- `dup` or `fork`: descriptor `j` gets the open file and the window of descriptor `i`. -/
  | share (i j : ℕ)
  | read (i : ℕ) (n : Word)
  | write (i : ℕ) (buf : List Byte)
  | seek (i : ℕ) (offset : Word)
  | ftruncate (i : ℕ) (size : Word)
  /-- The call of descriptor `i` goes on. -/
  | step (i : ℕ)

/-! ## The server's side -/

/-- `serve_open`: the size is copied to the page. -/
def serveOpen (path : List Byte) : FsM (FileRef × Word) := do
  let f ← fileOpen path
  let size ← loadField f F_SIZE
  pure (f, size)

/-- The bytes of a `memcpy` to the window, one by one; those to pages that are not mapped go
elsewhere. -/
def copyBytes (window : ℕ → Option ℕ) : Word → List Byte → Server → Server
  | _, [], s => s
  | pos, c :: buf, s =>
      copyBytes window (pos + 1#32) buf
        (match window (pos.toNat / BY2BLK) with
        | some b => s.put b ((s.view b).setByte (pos.toNat % BY2BLK) c)
        | none => s)

/-! ## The calls -/

/-- `if (r > 0) fd->fd_offset += r`. -/
def addCount (offset n : Word) : Word := if n.msb then offset else offset + n

namespace Users

def setFd (u : Users) (i : ℕ) (fd : Option Fd) :
    Users := { u with fds := Function.update u.fds i fd }

def setFf (u : Users) (k : ℕ) (ff : Filefd) : Users :=
  { u with ffs := Function.update u.ffs k (some ff) }

/-- The server works on a request; nothing happens if it stops. -/
def request {α : Type} (u : Users) (x : FsM α) (ok : α → Users → Users) (err : Users → Users) :
    Option Users :=
  match x u.server with
  | .ok a s => some (ok a { u with server := s })
  | .exit _ s => some (err { u with server := s })
  | .panic _ => none

/-- `ftruncate` up to its first request. -/
def truncate (u : Users) (i : ℕ) (fd : Fd) (ff : Filefd) (size : Word)
    (copy : Option Copy) : Users :=
  (u.setFf fd.ff { ff with size := size }).setFd i
    (some { fd with pc := .setSize ff.size size copy })

/-- What is left of `ftruncate` when there are no more pages to be mapped: pages behind the new size
are unmapped. -/
def finish (u : Users) (i : ℕ) (fd : Fd) (oldsize size : Word) (copy : Option Copy) : Users :=
  let window := fun p => if pagesOf size ≤ p ∧ p < pagesOf oldsize then none else fd.window p
  u.setFd i (some { fd with window := window, pc := copy.elim .idle .copying })

/-- The next request of a call. -/
def advance (u : Users) (i : ℕ) (fd : Fd) (ff : Filefd) : Option Users :=
  let map (p : ℕ) (pc : Pc) (err : Option Fd) : Option Users :=
    u.request (fileGetBlock ff.file p)
      (fun b u => u.setFd i
        (some { fd with window := Function.update fd.window p (some b), pc := pc }))
      fun u => u.setFd i err
  match fd.pc with
  | .idle => none
  | .opening p =>
      if BY2BLK * p < ff.size.toNat then map p (.opening (p + 1)) (some { fd with pc := .idle })
      else some (u.setFd i (some { fd with pc := .idle }))
  | .setSize oldsize size copy =>
      u.request (fileSetSize ff.file size)
        (fun _ u => u.setFd i (some { fd with pc := .mapping (pagesOf oldsize) oldsize size copy }))
        fun u => u.setFd i (some { fd with pc := .idle })
  | .mapping p oldsize size copy =>
      if p < pagesOf size then
        map p (.mapping (p + 1) oldsize size copy) (some { fd with pc := .rollback oldsize })
      else some (u.finish i fd oldsize size copy)
  | .rollback oldsize =>
      u.request (fileSetSize ff.file oldsize)
        (fun _ u => u.setFd i (some { fd with pc := .idle }))
        fun u => u.setFd i (some { fd with pc := .idle })
  | .copying copy =>
      some (({ u with server := copyBytes fd.window copy.offset copy.buf u.server }.setFf fd.ff
        { ff with offset := addCount ff.offset (BitVec.ofNat 32 copy.buf.length) }).setFd i
          (some { fd with pc := .idle }))

/-- The number of bytes that `file_read` returns. -/
def readCount (ff : Filefd) (n : Word) : Word :=
  if ff.size.toNat < ff.offset.toNat then 0#32
  else if ff.size.toNat < (ff.offset + n).toNat then ff.size - ff.offset
  else n

/-- The descriptor `i` and its open file. -/
def get (u : Users) (i : ℕ) : Option (Fd × Filefd) :=
  (u.fds i).bind fun fd => (u.ffs fd.ff).map fun ff => (fd, ff)

/-- The start of a call by a descriptor that has none to finish. -/
def begin_ (u : Users) (fd : Fd) (ff : Filefd) : Call → Option Users
  | .share _ j => if (u.fds j).isNone then some (u.setFd j (some fd)) else none
  | .read _ n => some (u.setFf fd.ff { ff with offset := addCount ff.offset (readCount ff n) })
  | .seek _ offset => some (u.setFf fd.ff { ff with offset := offset })
  | .write i buf =>
      let tot := ff.offset + BitVec.ofNat 32 buf.length
      if 2 ^ 32 ≤ buf.length then none
      else if ff.rdonly ∨ MAXFILESIZE < tot.toNat then some u
      else if ff.size.toNat < tot.toNat then some (u.truncate i fd ff tot (some ⟨ff.offset, buf⟩))
      else some (u.setFd i (some { fd with pc := .copying ⟨ff.offset, buf⟩ }))
  | .ftruncate i size =>
      if MAXFILESIZE < size.toNat then some u else some (u.truncate i fd ff size none)
  | _ => none

end Users

/-- The descriptor that makes the call. -/
def Call.fd : Call → ℕ
  | openFd i _ _ _ | share i _ | read i _ | write i _ | seek i _ | ftruncate i _ | step i => i

/-- The state after an event, if it can occur and the server does not stop. -/
def Users.exec (u : Users) (call : Call) : Option Users :=
  match call with
  | .openFd i k path rdonly =>
      if (u.fds i).isNone ∧ (u.ffs k).isNone ∧ 0#8 ∉ path then
        u.request (serveOpen path)
          (fun r u => (u.setFf k ⟨r.1, r.2, 0#32, rdonly⟩).setFd i
            (some ⟨k, fun _ => none, .opening 0⟩))
          id
      else none
  | .step i => (u.get i).bind fun (fd, ff) => u.advance i fd ff
  | call => (u.get call.fd).bind fun (fd, ff) =>
      match fd.pc with
      | .idle => u.begin_ fd ff call
      | _ => none

/-- A server has just been started on the disk, and no file is open. -/
def Users.Starts (disk : View) (u : Users) : Prop :=
  (World.mk u.server []).Starts disk ∧ u.ffs = (fun _ => none) ∧ u.fds = fun _ => none

def Users.Step (u : Users) (call : Call) (u' : Users) : Prop := u.exec call = some u'

/-- The states that runs of calls in `C` reach. -/
def Users.Reaches (disk : View) (C : Users → Call → Prop) : Users → Prop :=
  Reachable (Starts disk) (When C Step)

/-! ## Runs by evaluation -/

/-- The server is started on the disk; no file is open. -/
def Users.boot (disk : View) : Option Users :=
  (World.boot disk).map fun w => ⟨w.server, fun _ => none, fun _ => none⟩

/-- The next state, if the call is in `C`. -/
def Users.next (C : Users → Call → Prop) [∀ u call, Decidable (C u call)]
    (u : Users) (call : Call) :
    Option Users :=
  if C u call then u.exec call else none

section

variable {C : Users → Call → Prop} [∀ u call, Decidable (C u call)] {disk : View} {u u' : Users}

lemma Users.starts_boot (h : Users.boot disk = some u) : u.Starts disk := by
  obtain ⟨w, hw, rfl⟩ := Option.map_eq_some_iff.mp h
  obtain ⟨mem, s, hinit, rfl⟩ := World.starts_boot hw
  exact ⟨⟨mem, s, hinit, rfl⟩, rfl, rfl⟩

lemma Users.step_next {call : Call} (h : u.next C call = some u') :
    When C Users.Step u call u' := by
  rw [Users.next] at h
  split_ifs at h with hc
  exact ⟨hc, h⟩

/-- A run from the disk, by evaluation, and a run that goes on from there. -/
lemma Users.reaches_of_any (calls calls' : List Call) (test : Users → Users → Bool)
    (h : ((Users.boot disk).bind fun u₀ => (calls.foldlM (Users.next C) u₀).bind fun u =>
      (calls'.foldlM (Users.next C) u).map (test u)).any id = true) :
    ∃ u u', u.Reaches disk C ∧ Reachable (· = u) (When C Users.Step) u' ∧ test u u' = true := by
  obtain ⟨t, ht, htest⟩ := (Option.any_eq_true _ _).mp h
  obtain ⟨u₀, hu₀, ht⟩ := Option.bind_eq_some_iff.mp ht
  obtain ⟨u, hu, ht⟩ := Option.bind_eq_some_iff.mp ht
  obtain ⟨u', hu', rfl⟩ := Option.map_eq_some_iff.mp ht
  have hinit : u₀.Reaches disk C := .init (Users.starts_boot hu₀)
  have hself : Reachable (· = u) (When C Users.Step) u := .init rfl
  exact ⟨u, u', hinit.foldlM (fun _ _ _ => Users.step_next) hu,
    hself.foldlM (fun _ _ _ => Users.step_next) hu', htest⟩

end

end MosRv.Fs
