import MosRv.Lib.Reach
import MosRv.User.Space

/-!
# Processes that share a pipe (`user/lib/pipe.c`, `fd.c`, `fork.c`, `spawn.c`)

Any number of processes, each system call one step, run through `close`, `dup`, `fork`, the sharing
loop of `spawn`, `exit` and `_pipe_is_closed`, which compares two reference counts: of the
`struct Fd` page it is given, and of the page of the pipe.

`close` unmaps the `struct Fd` page first and the window after it; `dup` maps the window first and
the `struct Fd` page after it; `fork` and `spawn` walk the address space upwards, and the table of
`struct Fd` pages lies below the windows.  The loops skip unmapped pages within a step, since no
system call is made for them.  `vpd` is not modelled: where there is no page table there is no
mapping either.
-/

namespace MosRv.PipeEnds

open Reach RefGraph

/-! ## Processes -/

/-- The devices that a `struct Fd` can be of. -/
inductive Dev
  | file | cons | pipe
  deriving DecidableEq, Repr

/-- The pages of a pipe and the devices of all `struct Fd` pages. -/
structure Setup where
  /-- The `struct Fd` page of the read end. -/
  rdFd : ℕ
  /-- The `struct Fd` page of the write end. -/
  wrFd : ℕ
  /-- The page of the `struct Pipe`. -/
  page : ℕ
  /-- `dev_lookup` of the `fd_dev_id` that a page holds. -/
  dev : ℕ → Option Dev
  fd_ne : rdFd ≠ wrFd
  rd_ne : rdFd ≠ page
  wr_ne : wrFd ≠ page
  dev_rd : dev rdFd = some .pipe
  dev_wr : dev wrFd = some .pipe

/-- The two loops that give a child the pages of its parent. -/
inductive Kind
  | fork | spawn
  deriving DecidableEq, Repr

/-- What follows a `close`. -/
inductive Then
  | ret
  /-- The rest of `dup`. -/
  | dup (old new : Word)
  /-- The rest of `close_all` in `exit`. -/
  | exit (i : ℕ)

/-- Where a process is. -/
inductive Pc
  /-- There is no such process. -/
  | free
  /-- It was made by `sys_exofork` and is not runnable yet. -/
  | embryo
  /-- In its own code. -/
  | user
  /-- In `close`, or in the error path of `dup`: the addresses that are still to be unmapped. -/
  | unmap (todo : List Word) (next : Then)
  /-- In `dup`, before page `i` of the window. -/
  | dupData (old new : Word) (i : ℕ)
  /-- In `dup`, before the `struct Fd` page is mapped. -/
  | dupFd (old new : Word)
  /-- In `close_all`, before `close(i)`. -/
  | exit (i : ℕ)
  /-- In the loop of `fork` or `spawn`, before page number `v`. -/
  | copy (kind : Kind) (child v : ℕ)
  /-- In `duppage`, before page `v` is mapped again, as copy-on-write. -/
  | protect (child v : ℕ) (perm : Word)
  /-- In `spawn`, before it destroys the child because page `v` could not be mapped. -/
  | abort (child v : ℕ)

/-- The child that a process is giving its pages, and the page number it has come to. -/
def Pc.copying : Pc → Option (ℕ × ℕ)
  | .copy _ c v => some (c, v)
  | .protect c v _ => some (c, v + 1)
  | .abort c v => some (c, v)
  | _ => none

def Then.enter : Then → Pc
  | .ret => .user
  | .dup old new => .dupData old new 0
  | .exit i => .exit i

structure State where
  spaces : Spaces
  pc : ℕ → Pc

def State.setPc (s : State) (x : ℕ) (pc : Pc) : State := { s with pc := Function.update s.pc x pc }

/-! ## The calls -/

/-- The addresses that `close` unmaps: those of `dev_close`, then that of `fd_close`.  Of a file,
`file_close` unmaps the `n` pages of its contents. -/
def closePlan (P : Setup) (S : Spaces) (x : ℕ) (fdnum : Word) (n : ℕ) : List Word :=
  match (S.fdLookup x fdnum).bind fun m => P.dev m.page with
  | none => []
  | some .cons => [index2fd fdnum]
  | some .file =>
      (List.range n).map (fun i => fd2data (index2fd fdnum) + BitVec.ofNat 32 (i * 4096)) ++
        [index2fd fdnum]
  | some .pipe => [index2fd fdnum, fd2data (index2fd fdnum), index2fd fdnum]

/-- The addresses that the error path of `dup` unmaps. -/
def dupUndo (new : Word) : List Word :=
  index2fd new ::
    (List.range 1024).map fun i => fd2data (index2fd new) + BitVec.ofNat 32 (i * 4096)

/-- Does the loop of `fork` or `spawn` give this page to the child? -/
def Kind.selects : Kind → Mapping → Prop
  | .fork, _ => True
  | .spawn, m => HasFlag m.perm PTE_LIBRARY

/-- The first page number that the loop does not come to. -/
def Kind.limit : Kind → ℕ
  | .fork => pn USTACKTOP
  | .spawn => (PDX USTACKTOP + 1) * 1024

/-- `duppage` maps the page as copy-on-write. -/
def Kind.cow (kind : Kind) (m : Mapping) : Prop :=
  kind = .fork ∧ HasFlag m.perm PTE_W ∧ ¬ HasFlag m.perm PTE_LIBRARY

instance (kind : Kind) (m : Mapping) : Decidable (kind.cow m) := inferInstanceAs (Decidable (_ ∧ _))

/-- The permission with which the page is given to the child. -/
def Kind.perm (kind : Kind) (m : Mapping) : Word :=
  if kind.cow m then (m.perm &&& ~~~PTE_W) ||| PTE_COW else m.perm

/-- Where the parent goes when the page `v` is done. -/
def Kind.after (kind : Kind) (m : Mapping) (c v : ℕ) : Pc :=
  if kind.cow m then .protect c v (kind.perm m) else .copy kind c (v + 1)

/-- The address of a page. -/
def pageVa (v : ℕ) : Word := BitVec.ofNat 32 (v * 4096)

/-- The flags that `dup` keeps. -/
def dupPerm (m : Mapping) : Word := m.perm &&& (PTE_W ||| PTE_LIBRARY)

/-- `_pipe_is_closed` on the descriptor `fdnum` of the process `x`. -/
def State.pipeIsClosed (s : State) (x : ℕ) (fdnum : Word) : Bool :=
  s.spaces.pageref x (index2fd fdnum) = s.spaces.pageref x (fd2data (index2fd fdnum))

/-! ## Steps -/

/-- What happens next; `n` is the number of pages of a file that `close` may find. -/
inductive Act
  | close (x : ℕ) (fdnum : Word) (n : ℕ)
  | dup (x : ℕ) (old new : Word) (n : ℕ)
  | fork (x c : ℕ)
  /-- The program of the child is loaded, and the sharing loop begins. -/
  | spawn (x c : ℕ) (prog : ℕ → Option Mapping)
  | exit (x : ℕ)
  | check (x : ℕ) (fdnum : Word)
  /-- The process goes on with the call it is in, and its system call succeeds or fails. -/
  | run (x : ℕ) (ok : Bool)

/-- The address spaces in which a new environment has the given pages. -/
def fresh (S : Spaces) (c : ℕ) (prog : ℕ → Option Mapping) : Spaces :=
  fun s => if s.1 = c then prog s.2 else S s

inductive Step (P : Setup) (s : State) : Act → State → Prop
  | close {x : ℕ} (fdnum : Word) (n : ℕ) (hpc : s.pc x = .user) (hn : n ≤ 1024) :
      Step P s (.close x fdnum n) (s.setPc x (.unmap (closePlan P s.spaces x fdnum n) .ret))
  | dup {x : ℕ} (old new : Word) (n : ℕ) (hpc : s.pc x = .user) (hn : n ≤ 1024)
      (hold : (s.spaces.fdLookup x old).isSome) :
      Step P s (.dup x old new n) (s.setPc x (.unmap (closePlan P s.spaces x new n) (.dup old new)))
  | fork {x c : ℕ} (hpc : s.pc x = .user) (hc : s.pc c = .free) (hlt : c < NENV) :
      Step P s (.fork x c)
        (({ s with spaces := fresh s.spaces c fun _ => none }.setPc c .embryo).setPc x
          (.copy .fork c 0))
  | spawn {x c : ℕ} (prog : ℕ → Option Mapping) (hpc : s.pc x = .user) (hc : s.pc c = .free)
      (hlt : c < NENV) (hpn : ∀ v m, prog v = some m → v < 2 ^ 20)
      (hprog : ∀ v m, prog v = some m → m.page ≠ P.rdFd ∧ m.page ≠ P.wrFd ∧ m.page ≠ P.page) :
      Step P s (.spawn x c prog)
        (({ s with spaces := fresh s.spaces c prog }.setPc c .embryo).setPc x (.copy .spawn c 0))
  | exit {x : ℕ} (hpc : s.pc x = .user) : Step P s (.exit x) (s.setPc x (.exit 0))
  | check {x : ℕ} (fdnum : Word) (hpc : s.pc x = .user) : Step P s (.check x fdnum) s
  -- `close` and the error path of `dup`
  | unmap {x : ℕ} {va : Word} {todo : List Word} {next : Then}
      (hpc : s.pc x = .unmap (va :: todo) next) :
      Step P s (.run x true)
        ({ s with spaces := s.spaces.memUnmap x va }.setPc x (.unmap todo next))
  | unmapped {x : ℕ} {next : Then} (hpc : s.pc x = .unmap [] next) :
      Step P s (.run x true) (s.setPc x next.enter)
  -- `dup`
  | dupData {x i : ℕ} {old new : Word} (j : ℕ) (m : Mapping) (S : Spaces)
      (hpc : s.pc x = .dupData old new i) (hij : i ≤ j) (hj : j < 1024)
      (hskip : ∀ l, i ≤ l → l < j →
        s.spaces (x, pn (fd2data (index2fd old) + BitVec.ofNat 32 (l * 4096))) = none)
      (hm : s.spaces (x, pn (fd2data (index2fd old) + BitVec.ofNat 32 (j * 4096))) = some m)
      (hmap : s.spaces.memMap x (fd2data (index2fd old) + BitVec.ofNat 32 (j * 4096)) x
        (fd2data (index2fd new) + BitVec.ofNat 32 (j * 4096)) (dupPerm m) = some S) :
      Step P s (.run x true) ({ s with spaces := S }.setPc x (.dupData old new (j + 1)))
  | dupDataFail {x i : ℕ} {old new : Word} (hpc : s.pc x = .dupData old new i) :
      Step P s (.run x false) (s.setPc x (.unmap (dupUndo new) .ret))
  | dupDataEnd {x i : ℕ} {old new : Word} (hpc : s.pc x = .dupData old new i)
      (hskip : ∀ l, i ≤ l → l < 1024 →
        s.spaces (x, pn (fd2data (index2fd old) + BitVec.ofNat 32 (l * 4096))) = none) :
      Step P s (.run x true) (s.setPc x (.dupFd old new))
  | dupFd {x : ℕ} {old new : Word} (m : Mapping) (S : Spaces) (hpc : s.pc x = .dupFd old new)
      (hm : s.spaces (x, pn (index2fd old)) = some m)
      (hmap : s.spaces.memMap x (index2fd old) x (index2fd new) (dupPerm m) = some S) :
      Step P s (.run x true) ({ s with spaces := S }.setPc x .user)
  | dupFdFail {x : ℕ} {old new : Word} (hpc : s.pc x = .dupFd old new) :
      Step P s (.run x false) (s.setPc x (.unmap (dupUndo new) .ret))
  -- `exit`
  | closeAll {x i : ℕ} (n : ℕ) (hpc : s.pc x = .exit i) (hi : i < MAXFD) (hn : n ≤ 1024) :
      Step P s (.run x true)
        (s.setPc x (.unmap (closePlan P s.spaces x (BitVec.ofNat 32 i) n) (.exit (i + 1))))
  | destroy {x i : ℕ} (hpc : s.pc x = .exit i) (hi : MAXFD ≤ i) :
      Step P s (.run x true) ({ s with spaces := s.spaces.envFree x }.setPc x .free)
  -- `fork` and `spawn`
  | copy {x c v : ℕ} {kind : Kind} (u : ℕ) (m : Mapping) (S : Spaces)
      (hpc : s.pc x = .copy kind c v) (hvu : v ≤ u) (hu : u < kind.limit)
      (hskip : ∀ l m, v ≤ l → l < u → s.spaces (x, l) = some m → ¬ kind.selects m)
      (hm : s.spaces (x, u) = some m) (hsel : kind.selects m)
      (hmap : s.spaces.memMap x (pageVa u) c (pageVa u) (kind.perm m) = some S) :
      Step P s (.run x true) ({ s with spaces := S }.setPc x (kind.after m c u))
  | copyFail {x c v : ℕ} (u : ℕ) (m : Mapping) (hpc : s.pc x = .copy .fork c v) (hvu : v ≤ u)
      (hu : u < Kind.fork.limit) (hskip : ∀ l, v ≤ l → l < u → s.spaces (x, l) = none)
      (hm : s.spaces (x, u) = some m) :
      Step P s (.run x false) (s.setPc x (Kind.fork.after m c u))
  | copyAbort {x c v : ℕ} (hpc : s.pc x = .copy .spawn c v) :
      Step P s (.run x false) (s.setPc x (.abort c v))
  | protect {x c v : ℕ} {perm : Word} (S : Spaces) (hpc : s.pc x = .protect c v perm)
      (hmap : s.spaces.memMap x (pageVa v) x (pageVa v) perm = some S) :
      Step P s (.run x true) ({ s with spaces := S }.setPc x (.copy .fork c (v + 1)))
  | protectFail {x c v : ℕ} {perm : Word} (hpc : s.pc x = .protect c v perm) :
      Step P s (.run x false) (s.setPc x (.copy .fork c (v + 1)))
  | copied {x c v : ℕ} {kind : Kind} (hpc : s.pc x = .copy kind c v)
      (hskip : ∀ l m, v ≤ l → l < kind.limit → s.spaces (x, l) = some m → ¬ kind.selects m) :
      Step P s (.run x true) ((s.setPc c .user).setPc x .user)
  | aborted {x c v : ℕ} (hpc : s.pc x = .abort c v) :
      Step P s (.run x true)
        (({ s with spaces := s.spaces.envFree c }.setPc c .free).setPc x .user)

end MosRv.PipeEnds
