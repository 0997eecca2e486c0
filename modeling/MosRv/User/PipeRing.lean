import MosRv.Lib.Reach
import MosRv.Lib.Ring
import MosRv.Mmu

/-!
# One reader and one writer on a pipe (`user/lib/pipe.c`)

Two processes share the page of a `struct Pipe`: one calls `pipe_read`, the other `pipe_write`,
and both may close the ends they hold.  After `pipe` and `fork` each of them holds both ends; a
process holds an end by mapping its `struct Fd` page and, in the window of that descriptor, the
page of the pipe.

Control may pass to the other process after every step below.  The loops of `pipe_read` and
`pipe_write` are cut into the test of the inner `while` loop (`Pc.test`), the call of
`_pipe_is_closed` (`Pc.check`), `syscall_yield` (`Pc.yield`) and the copy of one byte together with
the advance of the position (`Pc.move`); `close` is cut into its system calls.  Inside
`_pipe_is_closed` there is no system call, so `env_runs` is the same before and after the two
counts are read and its loop is left after one round.

The counts `pageref` reads are the numbers of mappings of a page (`pp_ref`): of the `Fd` page of an
end, the processes that map it; of the pipe, the pairs of a process and an end whose window maps it.

`accepted` and `delivered` record the bytes that `pipe_write` has stored into the pipe and that
`pipe_read` has stored into the caller's buffer, in order.
-/

namespace MosRv.PipePair

open Reach

/-! ## The shared page -/

/-- `BY2PIPE`. -/
def BY2PIPE : ℕ := 32

instance : NeZero BY2PIPE := ⟨by decide⟩

/-- `struct Pipe`. -/
structure Pipe where
  pRpos : Word
  pWpos : Word
  pBuf : Fin BY2PIPE → BitVec 8

/-- The test of the inner loop of `pipe_read`. -/
def Pipe.looksEmpty (p : Pipe) : Bool := p.pWpos ≤ p.pRpos

/-- The test of the inner loop of `pipe_write`. -/
def Pipe.looksFull (p : Pipe) : Bool := BitVec.ofNat 32 BY2PIPE ≤ p.pWpos - p.pRpos

/-- `p->p_buf[(p->p_rpos++) % BY2PIPE]`. -/
def Pipe.get (p : Pipe) : BitVec 8 × Pipe :=
  (p.pBuf (Ring.cell BY2PIPE p.pRpos), { p with pRpos := p.pRpos + 1 })

/-- `p->p_buf[(p->p_wpos++) % BY2PIPE] = b`. -/
def Pipe.put (p : Pipe) (b : BitVec 8) : Pipe :=
  { p with pBuf := Function.update p.pBuf (Ring.cell BY2PIPE p.pWpos) b, pWpos := p.pWpos + 1 }

/-! ## Processes and ends -/

/-- The two processes. -/
inductive Who
  | reader | writer
  deriving DecidableEq, Repr

/-- The two ends of the pipe, that is, the two `struct Fd` pages that `pipe` makes. -/
inductive End
  | rd | wr
  deriving DecidableEq, Repr

/-- What a process maps for an end: the page of the `struct Fd`, and the page of the pipe in the
window of that descriptor. -/
structure EndMaps where
  fd : Bool
  data : Bool
  deriving DecidableEq, Repr

/-- Where a process is. -/
inductive Pc
  /-- In its own code. -/
  | idle
  /-- In `close` of an end, with `k` of its system calls done. -/
  | closing (e : End) (k : ℕ)
  /-- Before the test of the inner loop; `i` bytes of `n` are done. -/
  | test (n i : Word)
  /-- Before the call of `_pipe_is_closed`. -/
  | check (n i : Word)
  /-- Before `syscall_yield`. -/
  | yield (n i : Word)
  /-- Behind the inner loop, before the byte is copied. -/
  | move (n i : Word)
  deriving DecidableEq, Repr

structure State where
  pipe : Pipe
  ends : Who → End → EndMaps
  pc : Who → Pc
  /-- The buffer that the running call of `pipe_write` was given. -/
  wbuf : ℕ → BitVec 8
  accepted : List (BitVec 8)
  delivered : List (BitVec 8)

namespace State

variable (s : State)

def setPc (w : Who) (pc : Pc) : State := { s with pc := Function.update s.pc w pc }

def setEnd (w : Who) (e : End) (m : EndMaps) : State :=
  { s with ends := Function.update s.ends w (Function.update (s.ends w) e m) }

/-- `pageref` of the `struct Fd` page of an end. -/
def fdRef (e : End) : ℕ := (s.ends .reader e).fd.toNat + (s.ends .writer e).fd.toNat

/-- `pageref` of the page of the pipe. -/
def pipeRef : ℕ :=
  ((s.ends .reader .rd).data.toNat + (s.ends .reader .wr).data.toNat) +
    ((s.ends .writer .rd).data.toNat + (s.ends .writer .wr).data.toNat)

/-- `_pipe_is_closed`, with the `struct Fd` of the end `e`. -/
def pipeIsClosed (e : End) : Bool := s.fdRef e = s.pipeRef

/-- The process has closed the end. -/
def IsClosed (w : Who) (e : End) : Prop := (s.ends w e).fd = false ∧ (s.ends w e).data = false

end State

/-! ## Steps -/

/-- One step of `close`: `pipe_close` unmaps the `struct Fd` page and then the page of the pipe,
and `fd_close` unmaps the `struct Fd` page once more. -/
def closeStep (s : State) (w : Who) (e : End) : ℕ → State
  | 0 => (s.setEnd w e { s.ends w e with fd := false }).setPc w (.closing e 1)
  | 1 => (s.setEnd w e { s.ends w e with data := false }).setPc w (.closing e 2)
  | _ => (s.setEnd w e { s.ends w e with fd := false }).setPc w .idle

/-- The head of a `for` loop: the body for `i`, or the return of `n`. -/
def loopHead (s : State) (w : Who) (n i : Word) : State × Option Word :=
  if i < n then (s.setPc w (.test n i), none) else (s.setPc w .idle, some n)

/-- One step of `pipe_read`; with the value it returns, if it returns. -/
def readStep (s : State) : Pc → State × Option Word
  | .test n i =>
      if s.pipe.looksEmpty then
        if 0 < i.toInt then (s.setPc .reader .idle, some i) else
          (s.setPc .reader (.check n i), none)
      else (s.setPc .reader (.move n i), none)
  | .check n i =>
      if s.pipeIsClosed .rd then (s.setPc .reader .idle, some i)
      else (s.setPc .reader (.yield n i), none)
  | .yield n i => (s.setPc .reader (.test n i), none)
  | .move n i =>
      loopHead { s with pipe := s.pipe.get.2, delivered := s.delivered ++ [s.pipe.get.1] }
        .reader n (i + 1)
  | _ => (s, none)

/-- One step of `pipe_write`; with the value it returns, if it returns. -/
def writeStep (s : State) : Pc → State × Option Word
  | .test n i =>
      if s.pipe.looksFull then (s.setPc .writer (.check n i), none)
      else (s.setPc .writer (.move n i), none)
  | .check n i =>
      if s.pipeIsClosed .wr then (s.setPc .writer .idle, some i)
      else (s.setPc .writer (.yield n i), none)
  | .yield n i => (s.setPc .writer (.test n i), none)
  | .move n i =>
      loopHead { s with pipe := s.pipe.put (s.wbuf i.toNat), accepted :=
        s.accepted ++ [s.wbuf i.toNat] }
        .writer n (i + 1)
  | _ => (s, none)

/-- What happens next. -/
inductive Act
  /-- The reader calls `pipe_read`. -/
  | read (n : Word)
  /-- The writer calls `pipe_write`. -/
  | write (n : Word) (buf : ℕ → BitVec 8)
  /-- A process calls `close`. -/
  | close (w : Who) (e : End)
  /-- A process goes on with the call it is in. -/
  | run (w : Who)

/-- One step of a process inside a call. -/
def callStep (s : State) (w : Who) : Pc → Option (State × Option Word)
  | .idle => none
  | .closing e k => some (closeStep s w e k, none)
  | pc =>
      match w with
      | .reader => some (readStep s pc)
      | .writer => some (writeStep s pc)

/-- The state after an action, with the value that a call returns; `none` when the action is not
possible: a call is made only from a process's own code and on an end it has open. -/
def step (s : State) : Act → Option (State × Option Word)
  | .read n =>
      if s.pc .reader = .idle ∧ (s.ends .reader .rd).fd = true then some (loopHead s .reader n 0)
      else none
  | .write n buf =>
      if s.pc .writer = .idle ∧ (s.ends .writer .wr).fd = true then
        some (loopHead { s with wbuf := buf } .writer n 0)
      else none
  | .close w e =>
      if s.pc w = .idle ∧ (s.ends w e).fd = true then some
        (s.setPc w (.closing e 0), none) else none
  | .run w => callStep s w (s.pc w)

/-- The system's steps. -/
def Step (s : State) (a : Act) (s' : State) : Prop := ∃ r, step s a = some (s', r)

/-- The state after `pipe` and `fork`: the page of the pipe is fresh, hence zero, and both processes
hold both ends. -/
def initial : State where
  pipe := ⟨0, 0, fun _ => 0⟩
  ends := fun _ _ => ⟨true, true⟩
  pc := fun _ => .idle
  wbuf := fun _ => 0
  accepted := []
  delivered := []

/-- The states of the runs whose steps meet `C`. -/
def Reaches (C : State → Act → Prop) : State → Prop := Reachable (· = initial) (When C Step)

/-! ## What a step does to the pipe -/

/-- A process behind the inner loop got there because the test let it, or was there before. -/
def EntersMove (s s' : State) (w : Who) (free : Bool) : Prop :=
  ∀ n i, s'.pc w = .move n i → s.pc w = .move n i ∨ free = true

/-- What a step can do to the pipe and to the two records. -/
inductive Effect (s s' : State) : Prop
  | quiet (pipe : s'.pipe = s.pipe) (accepted : s'.accepted = s.accepted)
      (delivered : s'.delivered = s.delivered)
      (reader : EntersMove s s' .reader (!s.pipe.looksEmpty))
      (writer : EntersMove s s' .writer (!s.pipe.looksFull))
  | get (n i : Word) (pc : s.pc .reader = .move n i) (pipe : s'.pipe = s.pipe.get.2)
      (accepted : s'.accepted = s.accepted)
      (delivered : s'.delivered = s.delivered ++ [s.pipe.get.1])
      (reader : ∀ n i, s'.pc .reader ≠ .move n i) (writer : s'.pc .writer = s.pc .writer)
  | put (n i : Word) (pc : s.pc .writer = .move n i)
      (pipe : s'.pipe = s.pipe.put (s.wbuf i.toNat))
      (accepted : s'.accepted = s.accepted ++ [s.wbuf i.toNat])
      (delivered : s'.delivered = s.delivered) (reader : s'.pc .reader = s.pc .reader)
      (writer : ∀ n i, s'.pc .writer ≠ .move n i)

/-- A step that only moves control, and not behind an inner loop. -/
lemma Effect.setPc {s s' : State} (w : Who) (pc : Pc) (hpc : ∀ n i, pc ≠ .move n i)
    (hpipe : s'.pipe = s.pipe) (hacc : s'.accepted = s.accepted)
    (hdel : s'.delivered = s.delivered) (hs : s'.pc = Function.update s.pc w pc) : Effect s s' := by
  have hmove : ∀ w' free, EntersMove s s' w' free := by
    intro w' free n i h
    rw [hs, Function.update_apply] at h
    split at h
    · exact absurd h (hpc n i)
    · exact .inl h
  exact .quiet hpipe hacc hdel (hmove _ _) (hmove _ _)

/-- A place of the control at which nothing is known about the pipe or the ends. -/
structure Pc.Neutral (pc : Pc) : Prop where
  move : ∀ n i, pc ≠ .move n i
  check : ∀ n i, pc ≠ .check n i
  closing : ∀ e k, pc ≠ .closing e (k + 1)

lemma loopHead_spec (s : State) (w : Who) (n i : Word) :
    ∃ pc : Pc, pc.Neutral ∧ (loopHead s w n i).1 = s.setPc w pc := by
  rw [loopHead]
  split
  · exact ⟨.test n i, ⟨by simp, by simp, by simp⟩, rfl⟩
  · exact ⟨.idle, ⟨by simp, by simp, by simp⟩, rfl⟩

lemma readStep_effect {s : State} {pc : Pc} (hpc : s.pc .reader = pc) :
    Effect s (readStep s pc).1 := by
  cases pc with
  | idle =>
      exact .quiet rfl rfl rfl (fun n i h => .inl h) (fun n i h => .inl h)
  | closing e k =>
      exact .quiet rfl rfl rfl (fun n i h => .inl h) (fun n i h => .inl h)
  | test n i =>
      rw [readStep]
      split
      · split
        · exact .setPc .reader .idle (by simp) rfl rfl rfl rfl
        · exact .setPc .reader (.check n i) (by simp) rfl rfl rfl rfl
      · next hfull =>
          refine .quiet rfl rfl rfl (fun _ _ _ => .inr (by simpa using hfull))
            fun n' i' h => .inl ?_
          simpa [State.setPc] using h
  | check n i =>
      rw [readStep]
      split
      · exact .setPc .reader .idle (by simp) rfl rfl rfl rfl
      · exact .setPc .reader (.yield n i) (by simp) rfl rfl rfl rfl
  | yield n i => exact .setPc .reader (.test n i) (by simp) rfl rfl rfl rfl
  | move n i =>
      obtain ⟨pc', hpc', heq⟩ := loopHead_spec
        { s with pipe := s.pipe.get.2, delivered :=
          s.delivered ++ [s.pipe.get.1] } .reader n (i + 1)
      rw [readStep, heq]
      exact .get n i hpc rfl rfl rfl (by simpa [State.setPc] using hpc'.move)
        (by simp [State.setPc])

lemma writeStep_effect {s : State} {pc : Pc} (hpc : s.pc .writer = pc) :
    Effect s (writeStep s pc).1 := by
  cases pc with
  | idle =>
      exact .quiet rfl rfl rfl (fun n i h => .inl h) (fun n i h => .inl h)
  | closing e k =>
      exact .quiet rfl rfl rfl (fun n i h => .inl h) (fun n i h => .inl h)
  | test n i =>
      rw [writeStep]
      split
      · exact .setPc .writer (.check n i) (by simp) rfl rfl rfl rfl
      · next hroom =>
          refine .quiet rfl rfl rfl (fun n' i' h => .inl ?_) fun _ _ _ =>
            .inr (by simpa using hroom)
          simpa [State.setPc] using h
  | check n i =>
      rw [writeStep]
      split
      · exact .setPc .writer .idle (by simp) rfl rfl rfl rfl
      · exact .setPc .writer (.yield n i) (by simp) rfl rfl rfl rfl
  | yield n i => exact .setPc .writer (.test n i) (by simp) rfl rfl rfl rfl
  | move n i =>
      obtain ⟨pc', hpc', heq⟩ := loopHead_spec
        { s with pipe := s.pipe.put (s.wbuf i.toNat), accepted := s.accepted ++ [s.wbuf i.toNat] }
        .writer n (i + 1)
      rw [writeStep, heq]
      exact .put n i hpc rfl rfl rfl (by simp [State.setPc])
        (by simpa [State.setPc] using hpc'.move)

lemma closeStep_effect (s : State) (w : Who) (e : End) (k : ℕ) : Effect s (closeStep s w e k) := by
  match k with
  | 0 => exact .setPc w (.closing e 1) (by simp) rfl rfl rfl rfl
  | 1 => exact .setPc w (.closing e 2) (by simp) rfl rfl rfl rfl
  | k + 2 => exact .setPc w .idle (by simp) rfl rfl rfl rfl

/-- The number of bytes that the running call was asked for. -/
def Pc.size : Pc → Option Word
  | .test n _ | .check n _ | .yield n _ | .move n _ => some n
  | _ => none

/-- A step is a call from a process's own code, on an end it has open, or a step of `close`, of
`pipe_read` or of `pipe_write`. -/
lemma step_cases {s s' : State} {a : Act} (h : Step s a s') :
    (∃ w pc buf, pc.Neutral ∧ (w = .writer → pc.size ≠ none → (s.ends .writer .wr).fd = true) ∧
        s' = { s with wbuf := buf }.setPc w pc) ∨
      (∃ w e k, a = .run w ∧ s.pc w = .closing e k ∧ s' = closeStep s w e k) ∨
      (a = .run .reader ∧ s' = (readStep s (s.pc .reader)).1) ∨
      (a = .run .writer ∧ s' = (writeStep s (s.pc .writer)).1) := by
  obtain ⟨r, h⟩ := h
  cases a with
  | read n =>
      rw [step, Option.ite_none_right_eq_some, Option.some.injEq] at h
      obtain ⟨pc, hpc, heq⟩ := loopHead_spec s .reader n 0
      rw [h.2] at heq
      exact .inl ⟨.reader, pc, s.wbuf, hpc, fun hw => absurd hw (by decide), heq⟩
  | write n buf =>
      rw [step, Option.ite_none_right_eq_some, Option.some.injEq] at h
      obtain ⟨pc, hpc, heq⟩ := loopHead_spec { s with wbuf := buf } .writer n 0
      rw [h.2] at heq
      exact .inl ⟨.writer, pc, buf, hpc, fun _ _ => h.1.2, heq⟩
  | close w e =>
      rw [step, Option.ite_none_right_eq_some, Option.some.injEq, Prod.mk.injEq] at h
      exact .inl ⟨w, .closing e 0, s.wbuf, ⟨by simp, by simp, by simp⟩, fun _ h => absurd rfl h,
        h.2.1.symm⟩
  | run w =>
      right
      rw [step] at h
      cases hpc : s.pc w with
      | idle => simp [hpc, callStep] at h
      | closing e k =>
          rw [hpc, callStep, Option.some.injEq, Prod.mk.injEq] at h
          exact .inl ⟨w, e, k, rfl, hpc, h.1.symm⟩
      | test n i | check n i | yield n i | move n i =>
          right
          cases w with
          | reader =>
              rw [hpc, callStep, Option.some.injEq] at h
              · exact .inl ⟨rfl, by rw [hpc, h]⟩
              all_goals simp
          | writer =>
              rw [hpc, callStep, Option.some.injEq] at h
              · exact .inr ⟨rfl, by rw [hpc, h]⟩
              all_goals simp

lemma Step.effect {s s' : State} {a : Act} (h : Step s a s') : Effect s s' := by
  obtain ⟨w, pc, buf, hpc, -, rfl⟩ | ⟨w, e, k, -, -, rfl⟩ | ⟨-, rfl⟩ | ⟨-, rfl⟩ := step_cases h
  · exact .setPc w pc hpc.move rfl rfl rfl rfl
  · exact closeStep_effect s w e k
  · exact readStep_effect rfl
  · exact writeStep_effect rfl

/-! ## First in, first out -/

/-- The invariant of the ring: the pipe holds the accepted bytes that were not delivered yet, a
reader behind its inner loop has a byte to take and a writer behind its inner loop has room. -/
structure Fifo (s : State) : Prop where
  unread : ∃ l, s.accepted = s.delivered ++ l ∧ Ring.Holds s.pipe.pBuf s.pipe.pRpos s.pipe.pWpos l
  reader_move : ∀ n i, s.pc .reader = .move n i → s.pipe.pRpos ≠ s.pipe.pWpos
  writer_move : ∀ n i, s.pc .writer = .move n i →
    (s.pipe.pWpos - s.pipe.pRpos).toNat < BY2PIPE

lemma BY2PIPE_dvd : BY2PIPE ∣ 2 ^ 32 := by decide

lemma BY2PIPE_lt : BY2PIPE < 2 ^ 32 := by decide

/-- The reader's test is true of an empty pipe. -/
lemma Pipe.ne_of_not_looksEmpty {p : Pipe} (h : (!p.looksEmpty) = true) : p.pRpos ≠ p.pWpos := by
  intro heq
  simp [Pipe.looksEmpty, heq] at h

/-- The writer's test is true of a full pipe. -/
lemma Pipe.lt_of_not_looksFull {p : Pipe} (h : (!p.looksFull) = true) :
    (p.pWpos - p.pRpos).toNat < BY2PIPE := by
  rw [Pipe.looksFull, Bool.not_eq_true', decide_eq_false_iff_not, BitVec.not_le,
    BitVec.lt_def] at h
  exact h

lemma Fifo.effect {s s' : State} (h : Fifo s) (hs : Effect s s') : Fifo s' := by
  obtain ⟨l, hl, hring⟩ := h.unread
  cases hs with
  | quiet pipe accepted delivered reader writer =>
      refine ⟨⟨l, by rw [accepted, delivered, hl], pipe ▸ hring⟩, ?_, ?_⟩
      · intro n i hpc
        rw [pipe]
        exact (reader n i hpc).elim (h.reader_move n i) Pipe.ne_of_not_looksEmpty
      · intro n i hpc
        rw [pipe]
        exact (writer n i hpc).elim (h.writer_move n i) Pipe.lt_of_not_looksFull
  | get n i pc pipe accepted delivered reader writer =>
      have hne := hring.ne_nil (h.reader_move n i pc)
      cases l with
      | nil => exact absurd rfl hne
      | cons b l =>
          obtain ⟨hb, hring'⟩ := hring.pop
          refine ⟨⟨l, ?_, by rw [pipe]; exact hring'⟩, fun n i hpc => absurd hpc (reader n i), ?_⟩
          · rw [accepted, delivered, hl, Pipe.get, hb, List.append_assoc, List.singleton_append]
          · intro n' i' hpc
            have hlen := hring.length_le
            rw [List.length_cons] at hlen
            rw [pipe, Pipe.get, hring'.toNat_sub BY2PIPE_lt]
            omega
  | put n i pc pipe accepted delivered reader writer =>
      have hroom := h.writer_move n i pc
      rw [hring.toNat_sub BY2PIPE_lt] at hroom
      have hring' := hring.push BY2PIPE_dvd hroom (s.wbuf i.toNat)
      refine ⟨⟨l ++ [s.wbuf i.toNat], ?_, by rw [pipe]; exact hring'⟩, ?_,
        fun n i hpc => absurd hpc (writer n i)⟩
      · rw [accepted, delivered, hl, List.append_assoc]
      · intro n' i' _ heq
        have hsub := hring'.toNat_sub BY2PIPE_lt
        rw [pipe, Pipe.put] at heq
        change s.pipe.pRpos = s.pipe.pWpos + 1 at heq
        rw [← heq, BitVec.sub_self, List.length_append, List.length_singleton] at hsub
        simp at hsub

lemma fifo_initial : Fifo initial where
  unread := ⟨[], rfl, Ring.Holds.empty _ _⟩
  reader_move n i h := by simp [initial] at h
  writer_move n i h := by simp [initial] at h

lemma Reaches.fifo {C : State → Act → Prop} {s : State} (h : Reaches C s) : Fifo s := by
  refine Reachable.invariant h ?_ ?_
  · rintro s rfl
    exact fifo_initial
  · rintro s a s' hs ⟨-, hstep⟩
    exact hs.effect hstep.effect

/-- **Pipes are first in, first out.**  In every run of one reader and one writer, the bytes
delivered are a prefix of the bytes accepted, and the difference of the two positions, modulo
`2 ^ 32`, is the number of bytes in between and at most `BY2PIPE`. -/
theorem pipe_fifo (s : State) (h : Reaches (fun _ _ => True) s) :
    s.delivered <+: s.accepted ∧
      (s.pipe.pWpos - s.pipe.pRpos).toNat = s.accepted.length - s.delivered.length ∧
      (s.pipe.pWpos - s.pipe.pRpos).toNat ≤ BY2PIPE := by
  obtain ⟨l, hl, hring⟩ := h.fifo.unread
  have hsub := hring.toNat_sub BY2PIPE_lt
  refine ⟨⟨l, hl.symm⟩, ?_, ?_⟩
  · rw [hsub, hl, List.length_append]
    omega
  · rw [hsub]
    exact hring.length_le

/-- A list of actions that meet `C`, one after the other. -/
def exec (C : State → Act → Prop) [∀ s a, Decidable (C s a)] (s : State) : List Act → Option State
  | [] => some s
  | a :: as => if C s a then (step s a).bind fun r => exec C r.1 as else none

lemma Reaches.exec {C : State → Act → Prop} [∀ s a, Decidable (C s a)] :
    ∀ {as : List Act} {s s' : State}, Reaches C s → exec C s as = some s' → Reaches C s'
  | [], s, s', h, he => by
      cases he
      exact h
  | a :: as, s, s', h, he => by
      rw [PipePair.exec, Option.ite_none_right_eq_some, Option.bind_eq_some_iff] at he
      obtain ⟨hC, r, hr, he⟩ := he
      exact Reaches.exec (Reachable.step h ⟨hC, r.2, hr⟩) he

/-- Two bytes are written and one of them is read. -/
theorem pipe_fifo_two_bytes :
    ∃ s, Reaches (fun _ _ => True) s ∧ s.accepted = [7, 8] ∧ s.delivered = [7] ∧
      s.delivered <+: s.accepted ∧
      (s.pipe.pWpos - s.pipe.pRpos).toNat = s.accepted.length - s.delivered.length ∧
      (s.pipe.pWpos - s.pipe.pRpos).toNat ≤ BY2PIPE := by
  have hrun : ∃ s, exec (fun _ _ => True) initial [.write 2 fun i =>
    if i = 0 then 7 else 8, .run .writer,
      .run .writer, .run .writer, .read 1, .run .reader, .run .writer, .run .reader] = some s ∧
      s.accepted = [7, 8] ∧ s.delivered = [7] := ⟨_, rfl, rfl, rfl⟩
  obtain ⟨s, hs, hacc, hdel⟩ := hrun
  have hreach : Reaches (fun _ _ => True) s := Reaches.exec (.init rfl) hs
  exact ⟨s, hreach, hacc, hdel, pipe_fifo s hreach⟩

/-! ## End of file -/

def Pc.isTest : Pc → Bool
  | .test _ _ => true
  | _ => false

def Pc.isCheck : Pc → Bool
  | .check _ _ => true
  | _ => false

/-- End of file is reported only when the writer has closed its end and everything it wrote was
delivered. -/
def State.EofSound (s : State) : Prop :=
  ∀ s' n, (s.pc .reader).size = some n → 0 < n → step s (.run .reader) = some (s', some 0) →
    s.IsClosed .writer .wr ∧ s.delivered = s.accepted

/-- The writer does not give up the page of the pipe while there are bytes in it and the reader is
between its test of the inner loop and its call of `_pipe_is_closed`, and the reader makes no such
test of a pipe that the writer has given up while the write position has wrapped and the read
position has not. -/
def Timely (s : State) : Act → Prop
  | .run .reader => (s.pc .reader).isTest = true →
      s.pipe.pRpos ≤ s.pipe.pWpos ∨ (s.ends .writer .wr).data = true
  | .run .writer => s.pc .writer = .closing .wr 1 → (s.pc .reader).isCheck = true →
      s.pipe.pRpos = s.pipe.pWpos
  | _ => True

instance (s : State) : ∀ a, Decidable (Timely s a)
  | .run .reader => inferInstanceAs (Decidable (_ → _))
  | .run .writer => inferInstanceAs (Decidable (_ → _ → _))
  | .read _ | .write _ _ | .close _ _ => inferInstanceAs (Decidable True)

/-- A process that maps the `struct Fd` page of an end maps the page of the pipe in its window, and
the `struct Fd` page goes first. -/
structure Ends (s : State) : Prop where
  data_of_fd : ∀ w e, (s.ends w e).fd = true → (s.ends w e).data = true
  closing : ∀ w e, s.pc w = .closing e 1 → (s.ends w e).fd = false

lemma Ends.setPc {s s' : State} (h : Ends s) {w : Who} {pc : Pc}
    (hpc : ∀ e k, pc ≠ .closing e (k + 1))
    (hends : s'.ends = s.ends) (hs : s'.pc = Function.update s.pc w pc) : Ends s' where
  data_of_fd w e := by
    rw [hends]
    exact h.data_of_fd w e
  closing w' e hw := by
    rw [hs, Function.update_apply] at hw
    rw [hends]
    split at hw
    · exact absurd hw (hpc e 0)
    · exact h.closing w' e hw

lemma Ends.loopHead {s : State} (h : Ends s) (w : Who) (n i : Word) :
    Ends (PipePair.loopHead s w n i).1 := by
  obtain ⟨pc, hpc, heq⟩ := loopHead_spec s w n i
  rw [heq]
  exact h.setPc hpc.closing rfl rfl

lemma setEnd_ends (s : State) (w w' : Who) (e e' : End) (m : EndMaps) :
    (s.setEnd w e m).ends w' e' = if w' = w ∧ e' = e then m else s.ends w' e' := by
  by_cases hw : w' = w
  · subst hw
    by_cases he : e' = e
    · subst he
      simp [State.setEnd]
    · simp [State.setEnd, he]
  · simp [State.setEnd, hw]

lemma Ends.closeStep {s : State} (h : Ends s) {w : Who} {e : End} {k : ℕ}
    (hpc : s.pc w = .closing e k) : Ends (PipePair.closeStep s w e k) := by
  -- what the step leaves of the end that is being closed
  have hset : ∀ m pc, (m.fd = true → m.data = true) → (pc = .closing e 1 → m.fd = false) →
      (∀ e', pc = .closing e' 1 → e' = e) → (m.fd = true → (s.ends w e).fd = true) →
      Ends ((s.setEnd w e m).setPc w pc) := by
    intro m pc hdata hfd hsame hle
    refine ⟨fun w' e' hopen => ?_, fun w' e' hpc' => ?_⟩
    · change ((s.setEnd w e m).ends w' e').fd = true at hopen
      change ((s.setEnd w e m).ends w' e').data = true
      rw [setEnd_ends] at hopen ⊢
      split_ifs at hopen ⊢
      · exact hdata hopen
      · exact h.data_of_fd w' e' hopen
    · change ((s.setEnd w e m).ends w' e').fd = false
      rw [setEnd_ends]
      by_cases hw : w' = w
      · subst hw
        have hpc₁ : pc = .closing e' 1 := by simpa [State.setPc, State.setEnd] using hpc'
        rw [if_pos ⟨rfl, hsame e' hpc₁⟩]
        exact hfd (hsame e' hpc₁ ▸ hpc₁)
      · rw [if_neg fun hc => hw hc.1]
        exact h.closing w' e' (by simpa [State.setPc, State.setEnd, hw] using hpc')
  match k with
  | 0 => exact hset _ _ (by simp) (by simp) (by simp) (by simp)
  | 1 => exact hset _ _ (by simp [h.closing w e hpc]) (by simp) (by simp) id
  | k + 2 => exact hset _ _ (by simp) (by simp) (by simp) (by simp)

lemma Ends.readStep {s : State} (h : Ends s) (pc : Pc) : Ends (PipePair.readStep s pc).1 := by
  cases pc with
  | idle | closing => exact h
  | test n i =>
      rw [PipePair.readStep]
      split_ifs
      all_goals exact h.setPc (by simp) rfl rfl
  | check n i =>
      rw [PipePair.readStep]
      split_ifs
      all_goals exact h.setPc (by simp) rfl rfl
  | yield n i => exact h.setPc (by simp) rfl rfl
  | move n i =>
      rw [PipePair.readStep]
      refine Ends.loopHead ?_ .reader n (i + 1)
      exact ⟨h.data_of_fd, h.closing⟩

lemma Ends.writeStep {s : State} (h : Ends s) (pc : Pc) : Ends (PipePair.writeStep s pc).1 := by
  cases pc with
  | idle | closing => exact h
  | test n i =>
      rw [PipePair.writeStep]
      split_ifs
      all_goals exact h.setPc (by simp) rfl rfl
  | check n i =>
      rw [PipePair.writeStep]
      split_ifs
      all_goals exact h.setPc (by simp) rfl rfl
  | yield n i => exact h.setPc (by simp) rfl rfl
  | move n i =>
      rw [PipePair.writeStep]
      refine Ends.loopHead ?_ .writer n (i + 1)
      exact ⟨h.data_of_fd, h.closing⟩

lemma Ends.step {s s' : State} {a : Act} (h : Ends s) (hs : Step s a s') : Ends s' := by
  obtain ⟨w, pc, buf, hpc, -, rfl⟩ | ⟨w, e, k, -, hpc, rfl⟩ | ⟨-, rfl⟩ | ⟨-, rfl⟩ := step_cases hs
  · exact h.setPc hpc.closing rfl rfl
  · exact h.closeStep hpc
  · exact h.readStep _
  · exact h.writeStep _

/-- **A pipe that looks closed to its reader has no writer.** -/
lemma Ends.isClosed {s : State} (h : Ends s) (hc : s.pipeIsClosed .rd = true) (w : Who) :
    s.IsClosed w .wr := by
  have hle : ∀ w e, (s.ends w e).fd.toNat ≤ (s.ends w e).data.toNat := by
    intro w e
    exact Bool.toNat_le_toNat (Bool.le_iff_imp.mpr (h.data_of_fd w e))
  rw [State.pipeIsClosed, decide_eq_true_iff, State.fdRef, State.pipeRef] at hc
  have hdata : (s.ends w .wr).data.toNat = 0 := by
    have := hle .reader .rd
    have := hle .writer .rd
    cases w <;> omega
  have hfd := hle w .wr
  rw [hdata] at hfd
  exact ⟨Bool.toNat_eq_zero.mp (by omega), Bool.toNat_eq_zero.mp hdata⟩

/-! ### The reader between its two looks -/

/-- The writer has the page of the pipe while it is in `pipe_write`; and between the reader's test
of the inner loop and its call of `_pipe_is_closed`, it has it or the pipe is empty. -/
structure Held (s : State) : Prop where
  writing : (s.pc .writer).size ≠ none → (s.ends .writer .wr).data = true
  check : ∀ n i, s.pc .reader = .check n i →
    s.pipe.pRpos = s.pipe.pWpos ∨ (s.ends .writer .wr).data = true

/-- A step that only moves control. -/
lemma Held.setPc {s s' : State} (h : Held s) {w : Who} {pc : Pc}
    (hwriting : w = .writer → pc.size ≠ none → (s.ends .writer .wr).data = true)
    (hcheck : ∀ n i, w = .reader → pc = .check n i →
      s.pipe.pRpos = s.pipe.pWpos ∨ (s.ends .writer .wr).data = true)
    (hpipe : s'.pipe = s.pipe) (hends : s'.ends = s.ends)
    (hs : s'.pc = Function.update s.pc w pc) : Held s' where
  writing hsize := by
    rw [hs, Function.update_apply] at hsize
    rw [hends]
    split at hsize
    · next hw => exact hwriting hw.symm hsize
    · exact h.writing hsize
  check n i hr := by
    rw [hs, Function.update_apply] at hr
    rw [hpipe, hends]
    split at hr
    · next hw => exact hcheck n i hw.symm hr
    · exact h.check n i hr

lemma Held.readStep {s : State} {pc : Pc} (hpc : s.pc .reader = pc) (h : Held s)
    (ht : Timely s (.run .reader)) : Held (PipePair.readStep s pc).1 := by
  cases pc with
  | idle | closing => exact h
  | test n i =>
      rw [PipePair.readStep]
      split
      · next hempty =>
          split
          · exact h.setPc (by simp) (by simp) rfl rfl rfl
          · refine h.setPc (by simp) (fun _ _ _ _ => ?_) rfl rfl rfl
            rw [Pipe.looksEmpty, decide_eq_true_iff] at hempty
            exact (ht (by rw [hpc]; rfl)).imp_left fun hle => BitVec.le_antisymm hle hempty
      · exact h.setPc (by simp) (by simp) rfl rfl rfl
  | check n i =>
      rw [PipePair.readStep]
      split_ifs
      all_goals exact h.setPc (by simp) (by simp) rfl rfl rfl
  | yield n i => exact h.setPc (by simp) (by simp) rfl rfl rfl
  | move n i =>
      obtain ⟨pc', hpc', heq⟩ := loopHead_spec
        { s with pipe := s.pipe.get.2, delivered :=
          s.delivered ++ [s.pipe.get.1] } .reader n (i + 1)
      rw [PipePair.readStep, heq]
      refine ⟨h.writing, fun n' i' hr => ?_⟩
      exact absurd (by simpa [State.setPc] using hr) (hpc'.check n' i')

/-- What the writer stores while the reader is between its two looks, it stores before it closes
its end. -/
lemma Held.writeStep {s : State} {pc : Pc} (hpc : s.pc .writer = pc) (h : Held s) :
    Held (PipePair.writeStep s pc).1 := by
  have hdata : pc.size ≠ none → (s.ends .writer .wr).data = true := hpc ▸ h.writing
  cases pc with
  | idle | closing => exact h
  | test n i =>
      rw [PipePair.writeStep]
      split_ifs
      all_goals exact h.setPc (fun _ _ => hdata (by simp [Pc.size])) (by simp) rfl rfl rfl
  | check n i =>
      rw [PipePair.writeStep]
      split_ifs
      all_goals exact h.setPc (fun _ _ => hdata (by simp [Pc.size])) (by simp) rfl rfl rfl
  | yield n i => exact h.setPc (fun _ _ => hdata (by simp [Pc.size])) (by simp) rfl rfl rfl
  | move n i =>
      obtain ⟨pc', -, heq⟩ := loopHead_spec
        { s with pipe := s.pipe.put (s.wbuf i.toNat), accepted := s.accepted ++ [s.wbuf i.toNat] }
        .writer n (i + 1)
      rw [PipePair.writeStep, heq]
      exact ⟨fun _ => hdata (by simp [Pc.size]), fun _ _ _ => .inr (hdata (by simp [Pc.size]))⟩

lemma Held.closeStep {s : State} (h : Held s) {w : Who} {e : End} {k : ℕ}
    (hpc : s.pc w = .closing e k) (ht : Timely s (.run w)) : Held (PipePair.closeStep s w e k) := by
  -- the page of the pipe stays, or it goes when nothing is in it
  have hset : ∀ m pc, pc.size = none →
      (m.data = (s.ends w e).data ∨ ∀ n i, w = .writer → e = .wr → s.pc .reader = .check n i →
        s.pipe.pRpos = s.pipe.pWpos) → Held ((s.setEnd w e m).setPc w pc) := by
    intro m pc hsize hdata
    cases w with
    | reader =>
        refine ⟨fun hwriting => ?_, fun n i hr => ?_⟩
        · exact h.writing hwriting
        · have hr' : pc = .check n i := by simpa [State.setPc] using hr
          rw [hr'] at hsize
          cases hsize
    | writer =>
        refine ⟨fun hwriting => ?_, fun n i hr => ?_⟩
        · exact absurd (by simpa [State.setPc] using hsize) hwriting
        · change s.pipe.pRpos = s.pipe.pWpos ∨ ((s.setEnd .writer e m).ends .writer .wr).data = true
          have hr' : s.pc .reader = .check n i := by simpa [State.setPc, State.setEnd] using hr
          rw [setEnd_ends]
          split
          · next he =>
              obtain rfl := he.2
              rcases hdata with hdata | hempty
              · rw [hdata]
                exact h.check n i hr'
              · exact .inl (hempty n i rfl rfl hr')
          · exact h.check n i hr'
  match k with
  | 0 => exact hset _ _ rfl (.inl rfl)
  | 1 =>
      refine hset _ _ rfl (.inr fun n i hw he hr => ?_)
      subst hw he
      exact ht hpc (by rw [hr]; rfl)
  | k + 2 => exact hset _ _ rfl (.inl rfl)

lemma Held.step {s s' : State} {a : Act} (h : Held s) (hends : Ends s) (ht : Timely s a)
    (hs : Step s a s') : Held s' := by
  obtain ⟨w, pc, buf, hpc, hopen, rfl⟩ | ⟨w, e, k, rfl, hpc, rfl⟩ | ⟨rfl, rfl⟩ | ⟨rfl, rfl⟩ :=
    step_cases hs
  · refine h.setPc (fun hw hsize => ?_) (fun n i _ hc => absurd hc (hpc.check n i)) rfl rfl rfl
    exact hends.data_of_fd .writer .wr (hopen hw hsize)
  · exact h.closeStep hpc ht
  · exact h.readStep rfl ht
  · exact h.writeStep rfl

lemma Reaches.ends {C : State → Act → Prop} {s : State} (h : Reaches C s) : Ends s := by
  refine Reachable.invariant h ?_ ?_
  · rintro s rfl
    exact ⟨fun _ _ _ => rfl, fun w e hpc => by simp [initial] at hpc⟩
  · rintro s a s' hs ⟨-, hstep⟩
    exact hs.step hstep

lemma Reaches.held {s : State} (h : Reaches Timely s) : Held s := by
  refine Reachable.invariant_of h (fun _ hs => Reaches.ends hs) ?_ ?_
  · rintro s rfl -
    refine ⟨fun hw => absurd rfl hw, fun n i hpc => ?_⟩
    simp [initial] at hpc
  · rintro s a s' hends - hs ⟨ht, hstep⟩
    exact hs.step hends ht hstep

/-- A call for at least one byte returns zero only from its call of `_pipe_is_closed`. -/
lemma eof_cases {s s' : State} {n : Word} (hn : (s.pc .reader).size = some n) (hpos : 0 < n)
    (h : step s (.run .reader) = some (s', some 0)) :
    ∃ i, s.pc .reader = .check n i ∧ s.pipeIsClosed .rd = true := by
  rw [step] at h
  cases hpc : s.pc .reader with
  | idle | closing => simp [hpc, Pc.size] at hn
  | test m i =>
      rw [hpc, callStep, readStep] at h
      · split_ifs at h with hempty hi
        · simp only [Option.some.injEq, Prod.mk.injEq] at h
          rw [h.2] at hi
          exact absurd hi (by decide)
        all_goals simp at h
      all_goals simp
  | check m i =>
      rw [hpc, Pc.size, Option.some.injEq] at hn
      subst hn
      rw [hpc, callStep, readStep] at h
      · split_ifs at h with hclosed
        · exact ⟨i, rfl, hclosed⟩
        · simp at h
      all_goals simp
  | yield m i =>
      rw [hpc, callStep, readStep] at h
      · simp at h
      all_goals simp
  | move m i =>
      rw [hpc, Pc.size, Option.some.injEq] at hn
      subst hn
      rw [hpc, callStep, readStep, loopHead] at h
      · split_ifs at h with hlt
        · simp at h
        · simp only [Option.some.injEq, Prod.mk.injEq] at h
          rw [h.2] at hpos
          exact absurd hpos (by decide)
      all_goals simp

/-- **End of file is never early**, in the runs in which the writer does not store and close its end
between the reader's two looks at the pipe, and the reader does not compare positions of which only
one has wrapped when the writer has closed its end. -/
theorem pipe_eof_sound (s : State) (h : Reaches Timely s) : s.EofSound := by
  intro s' n hn hpos hstep
  obtain ⟨i, hpc, hclosed⟩ := eof_cases hn hpos hstep
  obtain ⟨l, hl, hring⟩ := h.fifo.unread
  have hwriter := h.ends.isClosed hclosed .writer
  have hempty : s.pipe.pRpos = s.pipe.pWpos :=
    (h.held.check n i hpc).resolve_right (by rw [hwriter.2]; decide)
  have hlen := hring.toNat_sub BY2PIPE_lt
  rw [hempty, BitVec.sub_self] at hlen
  have hnil : l = [] := List.eq_nil_of_length_eq_zero (by simpa using hlen.symm)
  refine ⟨hwriter, ?_⟩
  rw [hl, hnil, List.append_nil]

/-- The calls by which each process closes the end it does not use. -/
def closeUnused : List Act :=
  [.close .reader .wr, .run .reader, .run .reader, .run .reader,
    .close .writer .rd, .run .writer, .run .writer, .run .writer]

/-- The reader finds the pipe empty, the writer stores a byte, and the reader, which finds the pipe
open, tests again and takes the byte; then the writer closes its end, and the reader is told that
the pipe is at its end. -/
theorem pipe_eof_sound_after_close :
    ∃ s, Reaches Timely s ∧ s.delivered = [7] ∧ (∃ s', step s (.run .reader) = some (s', some 0)) ∧
      s.EofSound := by
  have hrun : ∃ s s', exec Timely initial (closeUnused ++ [.read 1, .run .reader,
      .write 1 fun _ => 7, .run .writer, .run .writer, .run .reader, .run .reader, .run .reader,
      .run .reader, .close .writer .wr, .run .writer, .run .writer, .run .writer, .read 1,
      .run .reader]) = some s ∧ s.delivered = [7] ∧
      step s (.run .reader) = some (s', some 0) := ⟨_, _, rfl, rfl, rfl⟩
  obtain ⟨s, s', hs, hdel, hstep⟩ := hrun
  have hreach : Reaches Timely s := Reaches.exec (.init rfl) hs
  exact ⟨s, hreach, hdel, ⟨s', hstep⟩, pipe_eof_sound s hreach⟩

/-- The reader finds the pipe empty, the writer stores a byte and closes its end, and the reader,
which now finds the pipe closed, reports end of file with the byte still in the pipe. -/
theorem pipe_eof_early : ¬ ∀ s, Reaches (fun _ _ => True) s → s.EofSound := by
  intro hall
  have hrun : ∃ s s', exec (fun _ _ => True) initial
    (closeUnused ++ [.read 1, .run .reader, .write 1 fun _ => 7,
      .run .writer, .run .writer, .close .writer .wr, .run .writer, .run .writer, .run .writer]) =
        some s ∧ (s.pc .reader).size = some 1 ∧ step s (.run .reader) = some (s', some 0) ∧
        s.delivered = [] ∧ s.accepted = [7] := ⟨_, _, rfl, rfl, rfl, rfl, rfl⟩
  obtain ⟨s, s', hs, hn, hstep, hdel, hacc⟩ := hrun
  have hreach : Reaches (fun _ _ => True) s := Reaches.exec (.init rfl) hs
  have heof := (hall s hreach s' 1 hn (by decide) hstep).2
  rw [hdel, hacc] at heof
  cases heof

end MosRv.PipePair
