import MosRv.User.Ipc

/-!
# Requests to the file server (`user/lib/fsipc.c`, `fs/serv.c`)

Environment 1 runs `serve`; every other environment is a client that makes any number of `fsipc`
calls.  A client sends its request page with `ipc_send` and receives the answer with `ipc_recv`;
the server receives a request page at `REQVA`, runs the handler of the request and sends the answer
to the environment the request came from.

Every system call is a step, and so is each of the reads by which `ipc_recv` gets the sender, the
permission and the value.  A handler is a program that runs in any number of steps (`Handlers`),
each of which may read the page that is mapped at `REQVA` at that moment; it ends with its one
`ipc_send`.  What the handlers compute does not matter here, so they are a parameter.

`sys_ipc_try_send` gives the receiver the value and the permission and makes it runnable before it
maps the page.  If `page_alloc` then has no page for a page table, the sender ends (`user_assert(r
== 0)` in `ipc_send`), but the receiver goes on as if the page had come: a client returns from
`fsipc` without the page that the server sent it (`mixed_up_refused`).  In a run without such steps
(`Act.Granted`) requests and replies are never mixed up.

`called` records the requests each client made, `received` the requests the server received,
`served` the requests it served with the answers, `returned` what the calls returned.
-/

namespace MosRv

open Reach

/-- A send from `c` of a value and maybe a page changes the `struct Env`s as `Ipc.deliver` says; the
page is mapped where the receiver waits for it.  If it cannot be mapped, the call fails, but the
`struct Env`s have changed all the same. -/
lemma KInv.wp_sysIpcTrySend_page {T : Template} {k : Kernel} (h : KInv T k)
    (envid value srcva perm : Word) :
    Prog.wp (sysIpcTrySend envid value srcva perm) k
      (fun r k' => r = 0#32 ∧ ∃ c e, k.curenv = some c ∧ k.envOf envid = some e ∧
        (k.envs e).envIpcRecving ≠ 0#32 ∧ k'.envs = Ipc.deliver k.envs c e value perm ∧
        (srcva ≠ 0#32 → ∃ pp, k.pageAt c srcva = some pp ∧
          InsertCase k.pm (k.envs e).envPgdir pp (k.envs e).envIpcDstva (perm ||| PTE_U) k'.pm))
      (fun x k' => (∃ err, x = .code err) ∧ (k' = k ∨ srcva ≠ 0#32 ∧ ∃ c e, k.curenv = some c ∧
        k.envOf envid = some e ∧ (k.envs e).envIpcRecving ≠ 0#32 ∧
        k'.envs = Ipc.deliver k.envs c e value perm ∧ k'.pm = k.pm))
      (fun p => p = .nullCurenv ∨ p = .nullLink ∨ p = .listMisuse) := by
  refine (h.wp_sysIpcTrySend_cases envid value srcva perm).mono ?_ ?_ fun _ hp => hp
  · rintro r k' ⟨hr, c, e, q, hc, hid, -, hrecv, -, ⟨h0, rfl⟩ | ⟨hne, pp, m, hpp, -, hcase, rfl⟩⟩
    · exact ⟨hr, c, e, hc, hid, hrecv, rfl, fun hne => absurd h0 hne⟩
    · exact ⟨hr, c, e, hc, hid, hrecv, rfl, fun _ => ⟨pp, hpp, hcase⟩⟩
  · rintro x k' ⟨hx, hk | ⟨c, e, q, hc, hid, -, hrecv, hne, -, rfl⟩⟩
    · exact ⟨hx, .inl hk⟩
    · exact ⟨hx, .inr ⟨hne, c, e, hc, hid, hrecv, rfl, rfl⟩⟩

namespace FsIpc

/-! ## The protocol -/

def REQVA : Word := 0x0ffff000#32

def FSREQ_OPEN : Word := 1#32
def FSREQ_MAP : Word := 2#32
def FSREQ_SET_SIZE : Word := 3#32
def FSREQ_CLOSE : Word := 4#32
def FSREQ_DIRTY : Word := 5#32
def FSREQ_REMOVE : Word := 6#32
def FSREQ_SYNC : Word := 7#32

/-- The cases of the `switch` in `serve`. -/
def isRequest (req : Word) : Bool :=
  req ∈ [FSREQ_OPEN, FSREQ_MAP, FSREQ_SET_SIZE, FSREQ_CLOSE, FSREQ_DIRTY, FSREQ_REMOVE, FSREQ_SYNC]

/-- The index of the server in `envs`. -/
def SERVER : ℕ := 1

/-- The arguments of the `ipc_send` that ends a handler; `π` are the pages of the server. -/
structure Reply (π : Type) where
  value : Word
  page : Option π
  perm : Word

/-- The handlers.  `σ` are the states of the server between two requests, `κ` the contents of a
page. -/
structure Handlers (σ κ π : Type) where
  /-- The states inside a handler. -/
  Local : Type
  /-- The call of the handler for a request of `envid`. -/
  start : σ → (envid req : Word) → Local
  /-- One step, with the contents of the page at `REQVA`. -/
  next : Local → κ → Local ⊕ (σ × Reply π)

section

variable {σ κ π : Type}

/-- The answer of a handler that goes on from a state, if the page at `REQVA` stays as it is. -/
inductive Handlers.Answers (P : Handlers σ κ π) (page : κ) : P.Local → σ × Reply π → Prop
  | done {l : P.Local} {r : σ × Reply π} (h : P.next l page = .inr r) : P.Answers page l r
  | step {l l' : P.Local} {r : σ × Reply π} (h : P.next l page = .inl l')
      (hr : P.Answers page l' r) : P.Answers page l r

/-- A request: the type and the contents of the page. -/
structure Request (κ : Type) where
  client : ℕ
  type : Word
  contents : κ

/-- A request that was served, with the states of the server before and after it. -/
structure Served (σ κ π : Type) extends Request κ where
  envid : Word
  before : σ
  after : σ
  reply : Option (Reply π)

/-- Where a client is. -/
inductive ClientPc
  /-- In its own code. -/
  | idle
  /-- In `ipc_send`, before `syscall_ipc_try_send`. -/
  | send (type : Word)
  /-- In `ipc_send`, before `syscall_yield`. -/
  | yield (type : Word)
  /-- In `ipc_recv`, before `syscall_ipc_recv`. -/
  | recv
  /-- In `ipc_recv`, inside `syscall_ipc_recv`. -/
  | blocked
  /-- In `ipc_recv`, after it. -/
  | reading
  /-- In `user_assert`: the send has failed. -/
  | failed

/-- Where the server is. -/
inductive ServerPc (P : Handlers σ κ π)
  /-- In `ipc_recv`, before `syscall_ipc_recv`. -/
  | recv
  /-- In `ipc_recv`, inside `syscall_ipc_recv`. -/
  | blocked
  | readFrom (whom : Word)
  | readPerm (whom perm : Word)
  /-- In the handler. -/
  | handle (whom req : Word) (l : P.Local)
  /-- In the `ipc_send` of a handler, before `syscall_ipc_try_send`. -/
  | reply (whom : Word) (r : Reply π)
  /-- In the `ipc_send` of a handler, before `syscall_yield`. -/
  | yield (whom : Word) (r : Reply π)
  /-- Before `syscall_mem_unmap`. -/
  | unmap
  /-- In `user_assert`: the send has failed. -/
  | failed

structure State (P : Handlers σ κ π) where
  envs : ℕ → Env
  /-- The `fsipcbuf` of each client. -/
  buf : ℕ → κ
  /-- The client whose `fsipcbuf` is mapped at `REQVA`. -/
  reqva : Option ℕ
  /-- The page that the answer to the last call mapped at the client's `dstva`. -/
  dst : ℕ → Option π
  /-- The state of the server between two requests. -/
  store : σ
  client : ℕ → ClientPc
  server : ServerPc P
  called : ℕ → List (Word × κ)
  received : List (Request κ)
  served : List (Served σ κ π)
  returned : ℕ → List (Word × Option π)

namespace State

variable {P : Handlers σ κ π} (s : State P)

/-- The page that the server reads at `REQVA`.  Where nothing is mapped, the kernel maps a page of
zeros. -/
def page [Inhabited κ] : κ :=
  match s.reqva with
  | some c => s.buf c
  | none => default

def goto (c : ℕ) (pc : ClientPc) : State P :=
  { s with client := Function.update s.client c pc }

/-- `c` calls `fsipc`. -/
def call (c : ℕ) (type : Word) (contents : κ) : State P :=
  { s with
    buf := Function.update s.buf c contents
    client := Function.update s.client c (.send type)
    called := Function.update s.called c (s.called c ++ [(type, contents)]) }

/-- The request of `c` is delivered. -/
def request (c : ℕ) (type : Word) : State P :=
  { s with
    envs := Ipc.deliver s.envs c SERVER type PTE_W
    reqva := some c
    client := Function.update s.client c .recv
    received := s.received ++ [⟨c, type, s.buf c⟩] }

/-- The request of `c` is delivered, but its page is not mapped. -/
def requestFailed [Inhabited κ] (c : ℕ) (type : Word) : State P :=
  { s with
    envs := Ipc.deliver s.envs c SERVER type PTE_W
    client := Function.update s.client c .failed
    received := s.received ++ [⟨c, type, s.page⟩] }

/-- `c` waits for the answer. -/
def await (c : ℕ) (dstva : Word) : State P :=
  { s with
    envs := Ipc.recv s.envs c dstva
    client := Function.update s.client c .blocked }

/-- The call of `c` returns. -/
def ret (c : ℕ) : State P :=
  { s with
    client := Function.update s.client c .idle
    returned := Function.update s.returned c
      (s.returned c ++ [((s.envs c).envIpcValue, s.dst c)]) }

/-- The server has served a request. -/
def serve [Inhabited κ] (whom req : Word) (after : σ) (reply : Option (Reply π)) (pc : ServerPc P) :
    State P :=
  { s with
    store := after
    server := pc
    served := s.served ++ [⟨⟨ENVX whom, req, s.page⟩, whom, s.store, after, reply⟩] }

/-- The answer is delivered to `e`. -/
def answer (e : ℕ) (r : Reply π) : State P :=
  { s with
    envs := Ipc.deliver s.envs SERVER e r.value r.perm
    dst := Function.update s.dst e r.page
    server := .unmap }

/-- The answer is delivered to `e`, but its page is not mapped. -/
def answerFailed (e : ℕ) (r : Reply π) : State P :=
  { s with
    envs := Ipc.deliver s.envs SERVER e r.value r.perm
    dst := Function.update s.dst e none
    server := .failed }

/-- The environment is destroyed. -/
def destroy (e : ℕ) : State P :=
  { s with envs := Function.update s.envs e { s.envs e with envStatus := .free } }

/-- What the server served for a client. -/
def servedOf (c : ℕ) : List (Served σ κ π) := s.served.filter (·.client = c)

/-- The requests of a client that were served. -/
def requests (c : ℕ) : List (Word × κ) := (s.servedOf c).map fun v => (v.type, v.contents)

/-- The answers to a client. -/
def replies (c : ℕ) : List (Option (Word × Option π)) :=
  (s.servedOf c).map fun v => v.reply.map fun r => (r.value, r.page)

end State

/-- What happens next. -/
inductive Act (κ : Type)
  /-- A call of `fsipc`. -/
  | call (c : ℕ) (type : Word) (contents : κ)
  /-- The environment goes on. -/
  | run (c : ℕ)
  /-- The environment goes on with a send, and `page_alloc` has no page for the page table that the
  mapping of the sent page needs. -/
  | refused (c : ℕ)
  /-- A timer tick, or a `syscall_yield` of a client outside `fsipc`. -/
  | tick

/-- `page_alloc` does not refuse a page table. -/
def Act.Granted : Act κ → Prop
  | .refused _ => False
  | _ => True

section

variable [Inhabited κ] {P : Handlers σ κ π}

/-- The steps.  An environment takes a step only while it is runnable. -/
inductive Step (s : State P) : Act κ → State P → Prop
  | call {c : ℕ} {type : Word} {contents : κ} (hc : c ≠ SERVER)
      (hrun : (s.envs c).envStatus = .runnable) (hpc : s.client c = .idle) :
      Step s (.call c type contents) (s.call c type contents)
  | request {c : ℕ} {type : Word} (hc : c ≠ SERVER)
      (hrun : (s.envs c).envStatus = .runnable) (hpc : s.client c = .send type)
      (hlive : (s.envs SERVER).envStatus ≠ .free)
      (hrecv : (s.envs SERVER).envIpcRecving ≠ 0#32) : Step s (.run c) (s.request c type)
  | requestFailed {c : ℕ} {type : Word} (hc : c ≠ SERVER)
      (hrun : (s.envs c).envStatus = .runnable) (hpc : s.client c = .send type)
      (hlive : (s.envs SERVER).envStatus ≠ .free)
      (hrecv : (s.envs SERVER).envIpcRecving ≠ 0#32) : Step s (.refused c) (s.requestFailed c type)
  | notRecv {c : ℕ} {type : Word} (hc : c ≠ SERVER)
      (hrun : (s.envs c).envStatus = .runnable) (hpc : s.client c = .send type)
      (hlive : (s.envs SERVER).envStatus ≠ .free)
      (hrecv : (s.envs SERVER).envIpcRecving = 0#32) : Step s (.run c) (s.goto c (.yield type))
  | noServer {c : ℕ} {type : Word} (hc : c ≠ SERVER)
      (hrun : (s.envs c).envStatus = .runnable) (hpc : s.client c = .send type)
      (hfree : (s.envs SERVER).envStatus = .free) : Step s (.run c) (s.goto c .failed)
  | yield {c : ℕ} {type : Word} (hc : c ≠ SERVER)
      (hrun : (s.envs c).envStatus = .runnable) (hpc : s.client c = .yield type) :
      Step s (.run c) (s.goto c (.send type))
  | await {c : ℕ} {dstva : Word} (hc : c ≠ SERVER)
      (hrun : (s.envs c).envStatus = .runnable) (hpc : s.client c = .recv)
      (hva : ¬ (dstva ≠ 0#32 ∧ isIllegalVa dstva)) : Step s (.run c) (s.await c dstva)
  | resume {c : ℕ} (hc : c ≠ SERVER) (hrun : (s.envs c).envStatus = .runnable)
      (hpc : s.client c = .blocked) : Step s (.run c) (s.goto c .reading)
  | ret {c : ℕ} (hc : c ≠ SERVER) (hrun : (s.envs c).envStatus = .runnable)
      (hpc : s.client c = .reading) : Step s (.run c) (s.ret c)
  | exit {c : ℕ} (hc : c ≠ SERVER) (hrun : (s.envs c).envStatus = .runnable)
      (hpc : s.client c = .failed) : Step s (.run c) (s.destroy c)
  | tick : Step s .tick s
  -- the server
  | recv (hrun : (s.envs SERVER).envStatus = .runnable) (hpc : s.server = .recv) :
      Step s (.run SERVER)
        { s with envs := Ipc.recv s.envs SERVER REQVA, server := .blocked }
  | readFrom (hrun : (s.envs SERVER).envStatus = .runnable) (hpc : s.server = .blocked) :
      Step s (.run SERVER) { s with server := .readFrom (s.envs SERVER).envIpcFrom }
  | readPerm {whom : Word} (hrun : (s.envs SERVER).envStatus = .runnable)
      (hpc : s.server = .readFrom whom) :
      Step s (.run SERVER) { s with server := .readPerm whom (s.envs SERVER).envIpcPerm }
  | noPage {whom perm : Word} (hrun : (s.envs SERVER).envStatus = .runnable)
      (hpc : s.server = .readPerm whom perm) (hperm : perm &&& PTE_V = 0#32) :
      Step s (.run SERVER) { s with server := .recv }
  | handle {whom perm req : Word} (hrun : (s.envs SERVER).envStatus = .runnable)
      (hpc : s.server = .readPerm whom perm) (hperm : perm &&& PTE_V ≠ 0#32)
      (hvalue : (s.envs SERVER).envIpcValue = req) (hreq : isRequest req = true) :
      Step s (.run SERVER) { s with server := .handle whom req (P.start s.store whom req) }
  | invalid {whom perm req : Word} (hrun : (s.envs SERVER).envStatus = .runnable)
      (hpc : s.server = .readPerm whom perm) (hperm : perm &&& PTE_V ≠ 0#32)
      (hvalue : (s.envs SERVER).envIpcValue = req) (hreq : isRequest req = false) :
      Step s (.run SERVER) (s.serve whom req s.store none .unmap)
  | work {whom req : Word} {l l' : P.Local} (hrun : (s.envs SERVER).envStatus = .runnable)
      (hpc : s.server = .handle whom req l) (hl : P.next l s.page = .inl l') :
      Step s (.run SERVER) { s with server := .handle whom req l' }
  | done {whom req : Word} {l : P.Local} {after : σ} {r : Reply π}
      (hrun : (s.envs SERVER).envStatus = .runnable)
      (hpc : s.server = .handle whom req l) (hl : P.next l s.page = .inr (after, r)) :
      Step s (.run SERVER) (s.serve whom req after (some r) (.reply whom r))
  | answer {whom : Word} {r : Reply π} (hrun : (s.envs SERVER).envStatus = .runnable)
      (hpc : s.server = .reply whom r)
      (hid : (s.envs (ENVX whom)).envStatus ≠ .free ∧ (s.envs (ENVX whom)).envId = whom)
      (hrecv : (s.envs (ENVX whom)).envIpcRecving ≠ 0#32) :
      Step s (.run SERVER) (s.answer (ENVX whom) r)
  | answerFailed {whom : Word} {r : Reply π} (hrun : (s.envs SERVER).envStatus = .runnable)
      (hpc : s.server = .reply whom r)
      (hid : (s.envs (ENVX whom)).envStatus ≠ .free ∧ (s.envs (ENVX whom)).envId = whom)
      (hrecv : (s.envs (ENVX whom)).envIpcRecving ≠ 0#32) (hpage : r.page.isSome) :
      Step s (.refused SERVER) (s.answerFailed (ENVX whom) r)
  | noClient {whom : Word} {r : Reply π} (hrun : (s.envs SERVER).envStatus = .runnable)
      (hpc : s.server = .reply whom r)
      (hid : ¬ ((s.envs (ENVX whom)).envStatus ≠ .free ∧ (s.envs (ENVX whom)).envId = whom)) :
      Step s (.run SERVER) { s with server := .failed }
  | serverExit (hrun : (s.envs SERVER).envStatus = .runnable) (hpc : s.server = .failed) :
      Step s (.run SERVER) (s.destroy SERVER)
  | replyNotRecv {whom : Word} {r : Reply π} (hrun : (s.envs SERVER).envStatus = .runnable)
      (hpc : s.server = .reply whom r)
      (hid : (s.envs (ENVX whom)).envStatus ≠ .free ∧ (s.envs (ENVX whom)).envId = whom)
      (hrecv : (s.envs (ENVX whom)).envIpcRecving = 0#32) :
      Step s (.run SERVER) { s with server := .yield whom r }
  | replyYield {whom : Word} {r : Reply π} (hrun : (s.envs SERVER).envStatus = .runnable)
      (hpc : s.server = .yield whom r) : Step s (.run SERVER) { s with server := .reply whom r }
  | unmap (hrun : (s.envs SERVER).envStatus = .runnable) (hpc : s.server = .unmap) :
      Step s (.run SERVER) { s with reqva := none, server := .recv }

/-- The server is there, nobody is receiving, and nothing has been requested.  An environment is
found under its id. -/
structure Initial (s : State P) : Prop where
  live : (s.envs SERVER).envStatus ≠ .free
  ids : ∀ e, (s.envs e).envStatus ≠ .free → ENVX (s.envs e).envId = e
  recving : ∀ e, (s.envs e).envIpcRecving = 0#32
  reqva : s.reqva = none
  client : ∀ e, s.client e = .idle
  server : s.server = .recv
  called : ∀ e, s.called e = []
  received : s.received = []
  served : s.served = []
  returned : ∀ e, s.returned e = []

def Reaches : State P → Prop := Reachable Initial Step

/-- The states of the runs in which no page table is refused. -/
def ReachesGranted : State P → Prop := Reachable Initial (When (fun _ a => a.Granted) Step)

end

/-! ## The invariant -/

section

variable [Inhabited κ] {P : Handlers σ κ π}

/-- What the server has to do for a client. -/
inductive Stage (π : Type)
  /-- Nothing: there is no request, or it has been answered or left hanging. -/
  | none
  /-- A request was received. -/
  | received (type : Word)
  /-- The request was served and is to be answered. -/
  | replying (r : Reply π)

/-- A call that waits for its answer. -/
def Outstanding (s : State P) (c : ℕ) : Stage π → Prop
  | .none => s.called c = s.requests c ∧ s.replies c = (s.returned c).map some ++ [Option.none]
  | .received type =>
      s.called c = s.requests c ++ [(type, s.buf c)] ∧ s.replies c = (s.returned c).map some
  | .replying r =>
      s.called c = s.requests c ∧
        s.replies c = (s.returned c).map some ++ [some (r.value, r.page)]

/-- A call whose answer has been delivered. -/
def Delivered (s : State P) (c : ℕ) : Prop :=
  (s.envs c).envIpcRecving = 0#32 ∧ s.called c = s.requests c ∧
    s.replies c = (s.returned c).map some ++ [some ((s.envs c).envIpcValue, s.dst c)]

/-- What is known of a client, by where it is and by what the server has to do for it. -/
def ClientOk (s : State P) (c : ℕ) (st : Stage π) : ClientPc → Prop
  | .idle => st = .none ∧ (s.envs c).envIpcRecving = 0#32 ∧ s.called c = s.requests c ∧
      s.replies c = (s.returned c).map some
  | .send type | .yield type => st = .none ∧ (s.envs c).envIpcRecving = 0#32 ∧
      s.called c = s.requests c ++ [(type, s.buf c)] ∧ s.replies c = (s.returned c).map some
  | .recv => (s.envs c).envIpcRecving = 0#32 ∧ Outstanding s c st
  | .blocked =>
      (s.envs c).envIpcRecving ≠ 0#32 ∧ (s.envs c).envStatus = .notRunnable ∧
          Outstanding s c st ∨
        st = .none ∧ Delivered s c
  | .reading => st = .none ∧ Delivered s c
  | .failed => False

/-- The request that the server is busy with, and what was received before it. -/
structure Busy (s : State P) (stage : ℕ → Stage π) (whom req : Word) : Prop where
  idle : (s.envs SERVER).envIpcRecving = 0#32
  ne : ENVX whom ≠ SERVER
  live : (s.envs (ENVX whom)).envStatus ≠ .free
  id : (s.envs (ENVX whom)).envId = whom
  reqva : s.reqva = some (ENVX whom)
  stage : stage = Function.update (fun _ => .none) (ENVX whom) (.received req)
  received : s.received = s.served.map (·.toRequest) ++ [⟨ENVX whom, req, s.buf (ENVX whom)⟩]

/-- The server has served every request it received, and has one answer to deliver at most. -/
structure Served.All (s : State P) : Prop where
  idle : (s.envs SERVER).envIpcRecving = 0#32
  received : s.received = s.served.map (·.toRequest)

/-- What is known of the server, by where it is. -/
def ServerOk (s : State P) (stage : ℕ → Stage π) : ServerPc P → Prop
  | .recv => Served.All s ∧ s.reqva = none ∧ stage = fun _ => .none
  | .blocked =>
      (s.envs SERVER).envIpcRecving ≠ 0#32 ∧ (s.envs SERVER).envStatus = .notRunnable ∧
          s.received = s.served.map (·.toRequest) ∧ s.reqva = none ∧ stage = (fun _ => .none) ∨
        Busy s stage (s.envs SERVER).envIpcFrom (s.envs SERVER).envIpcValue ∧
          (s.envs SERVER).envIpcPerm &&& PTE_V ≠ 0#32
  | .readFrom whom => Busy s stage whom (s.envs SERVER).envIpcValue ∧
      (s.envs SERVER).envIpcPerm &&& PTE_V ≠ 0#32
  | .readPerm whom perm => Busy s stage whom (s.envs SERVER).envIpcValue ∧ perm &&& PTE_V ≠ 0#32
  | .handle whom req l => Busy s stage whom req ∧ isRequest req = true ∧
      ∀ r, P.Answers s.page l r → P.Answers s.page (P.start s.store whom req) r
  | .reply whom r | .yield whom r => Served.All s ∧ ENVX whom ≠ SERVER ∧
      (s.envs (ENVX whom)).envStatus ≠ .free ∧ (s.envs (ENVX whom)).envId = whom ∧
      s.reqva = some (ENVX whom) ∧
      stage = Function.update (fun _ => .none) (ENVX whom) (.replying r)
  | .unmap => Served.All s ∧ stage = fun _ => .none
  | .failed => False

/-- A request is answered with what its handler computes from its own type and contents; one with an
invalid code is left hanging. -/
def Served.Correct (P : Handlers σ κ π) (v : Served σ κ π) : Prop :=
  match v.reply with
  | some r => isRequest v.type = true ∧
      P.Answers v.contents (P.start v.before v.envid v.type) (v.after, r)
  | none => isRequest v.type = false ∧ v.after = v.before

/-- Each request is served in the state that the one before it left. -/
def Threads : σ → List (Served σ κ π) → σ → Prop
  | a, [], b => a = b
  | a, v :: l, b => v.before = a ∧ Threads v.after l b

/-- The invariant. -/
structure Inv (s : State P) : Prop where
  live : (s.envs SERVER).envStatus ≠ .free
  ids : ∀ e, (s.envs e).envStatus ≠ .free → ENVX (s.envs e).envId = e
  correct : ∀ v ∈ s.served, v.Correct P ∧ (s.envs v.client).envId = v.envid
  threads : ∃ a, Threads a s.served s.store
  sync : ∃ stage, ServerOk s stage s.server ∧ ∀ c, c ≠ SERVER → ClientOk s c (stage c) (s.client c)

end

/-! ## One step -/

section

variable {P : Handlers σ κ π} {s s' : State P} {stage : ℕ → Stage π} {c : ℕ}

lemma Threads.append {l : List (Served σ κ π)} {a b : σ} (h : Threads a l b) (v : Served σ κ π)
    (hv : v.before = b) : Threads a (l ++ [v]) v.after := by
  induction l generalizing a with
  | nil => exact ⟨hv.trans (show a = b from h).symm, rfl⟩
  | cons w l ih => exact ⟨h.1, ih h.2⟩

/-- What is known of a client is a matter of its own records. -/
lemma ClientOk.congr {st : Stage π} {pc : ClientPc} (h : ClientOk s c st pc)
    (henv : s'.envs c = s.envs c) (hbuf : s'.buf c = s.buf c) (hdst : s'.dst c = s.dst c)
    (hcalled : s'.called c = s.called c) (hserved : s'.servedOf c = s.servedOf c)
    (hret : s'.returned c = s.returned c) : ClientOk s' c st pc := by
  have hreq : s'.requests c = s.requests c := by rw [State.requests, State.requests, hserved]
  have hrep : s'.replies c = s.replies c := by rw [State.replies, State.replies, hserved]
  cases pc with
  | idle | send | yield | recv | blocked | reading =>
      cases st <;>
        simpa only [ClientOk, Outstanding, Delivered, henv, hbuf, hdst, hcalled, hreq,
          hrep, hret] using h
  | failed => exact h

/-- Records that a step of a client leaves alone. -/
structure SameServer (s s' : State P) : Prop where
  env : s'.envs SERVER = s.envs SERVER
  reqva : s'.reqva = s.reqva
  store : s'.store = s.store
  received : s'.received = s.received
  served : s'.served = s.served

lemma Busy.congr {whom req : Word} (h : Busy s stage whom req) (hs : SameServer s s')
    (hid : ∀ e, (s'.envs e).envId = (s.envs e).envId)
    (hlive : ∀ e, (s.envs e).envStatus ≠ .free → (s'.envs e).envStatus ≠ .free)
    (hbuf : ∀ e, stage e ≠ .none → s'.buf e = s.buf e) : Busy s' stage whom req where
  idle := hs.env ▸ h.idle
  ne := h.ne
  live := hlive _ h.live
  id := (hid _).trans h.id
  reqva := hs.reqva.trans h.reqva
  stage := h.stage
  received := by
    rw [hs.received, hs.served, hbuf _ (by rw [h.stage, Function.update_self]; exact nofun)]
    exact h.received

lemma Served.All.congr (h : Served.All s) (hs : SameServer s s') : Served.All s' where
  idle := hs.env ▸ h.idle
  received := by rw [hs.received, hs.served, h.received]

/-- A client whose request the server is busy with waits for the answer. -/
lemma ClientOk.waiting {st : Stage π} {pc : ClientPc} (h : ClientOk s c st pc) (hst : st ≠ .none) :
    pc = .recv ∧ (s.envs c).envIpcRecving = 0#32 ∧ Outstanding s c st ∨
      pc = .blocked ∧ (s.envs c).envIpcRecving ≠ 0#32 ∧ (s.envs c).envStatus = .notRunnable ∧
        Outstanding s c st := by
  cases pc with
  | idle | send | yield | reading => exact absurd h.1 hst
  | failed => exact h.elim
  | recv => exact .inl ⟨rfl, h⟩
  | blocked =>
      rcases h with h | h
      · exact .inr ⟨rfl, h⟩
      · exact absurd h.1 hst

lemma ClientOk.of_waiting {st : Stage π} {pc : ClientPc}
    (h : pc = .recv ∧ (s.envs c).envIpcRecving = 0#32 ∨ pc = .blocked ∧
      (s.envs c).envIpcRecving ≠ 0#32 ∧ (s.envs c).envStatus = .notRunnable)
    (hout : Outstanding s c st) : ClientOk s c st pc := by
  rcases h with ⟨rfl, hrecv⟩ | ⟨rfl, hrecv, hstatus⟩
  · exact ⟨hrecv, hout⟩
  · exact .inl ⟨hrecv, hstatus, hout⟩

variable [Inhabited κ]

lemma page_eq {e : ℕ} (h : s.reqva = some e) : s.page = s.buf e := by
  rw [State.page, h]

lemma ServerOk.congr {pc : ServerPc P} (h : ServerOk s stage pc) (hs : SameServer s s')
    (hid : ∀ e, (s'.envs e).envId = (s.envs e).envId)
    (hlive : ∀ e, (s.envs e).envStatus ≠ .free → (s'.envs e).envStatus ≠ .free)
    (hbuf : ∀ e, stage e ≠ .none → s'.buf e = s.buf e) : ServerOk s' stage pc := by
  cases pc with
  | recv => exact ⟨h.1.congr hs, hs.reqva.trans h.2.1, h.2.2⟩
  | blocked =>
      rw [ServerOk, hs.env, hs.reqva, hs.received, hs.served]
      exact h.imp_right fun h => ⟨h.1.congr hs hid hlive hbuf, h.2⟩
  | readFrom whom =>
      rw [ServerOk, hs.env]
      exact ⟨h.1.congr hs hid hlive hbuf, h.2⟩
  | readPerm whom perm =>
      rw [ServerOk, hs.env]
      exact ⟨h.1.congr hs hid hlive hbuf, h.2⟩
  | handle whom req l =>
      obtain ⟨hbusy, hreq, hl⟩ := h
      have hbusy' := hbusy.congr hs hid hlive hbuf
      have hpage : s'.page = s.page := by
        rw [page_eq hbusy'.reqva, page_eq hbusy.reqva]
        refine hbuf _ ?_
        rw [hbusy.stage, Function.update_self]
        exact nofun
      rw [ServerOk, hpage, hs.store]
      exact ⟨hbusy', hreq, hl⟩
  | reply whom r | yield whom r =>
      obtain ⟨hall, hne, hlive', hid', hreqva, hstage⟩ := h
      exact ⟨hall.congr hs, hne, hlive _ hlive', (hid _).trans hid', hs.reqva.trans hreqva, hstage⟩
  | unmap => exact ⟨h.1.congr hs, h.2⟩
  | failed => exact h

/-- A step of a client that is not in the middle of being served. -/
lemma Inv.client (h : Inv s) (hs : SameServer s s') (hserver : s'.server = s.server)
    (hid : ∀ e, (s'.envs e).envId = (s.envs e).envId)
    (hlive : ∀ e, (s'.envs e).envStatus ≠ .free ↔ (s.envs e).envStatus ≠ .free)
    (henv : ∀ e, e ≠ c → s'.envs e = s.envs e) (hbuf : ∀ e, e ≠ c → s'.buf e = s.buf e)
    (hdst : s'.dst = s.dst) (hcalled : ∀ e, e ≠ c → s'.called e = s.called e)
    (hret : ∀ e, e ≠ c → s'.returned e = s.returned e)
    (hpc : ∀ e, e ≠ c → s'.client e = s.client e)
    (hc : ∀ st, ClientOk s c st (s.client c) →
      ClientOk s' c st (s'.client c) ∧ (st ≠ .none → s'.buf c = s.buf c)) (hne : c ≠ SERVER) :
    Inv s' := by
  obtain ⟨stage, hok, hclients⟩ := h.sync
  refine ⟨(hlive SERVER).mpr h.live, fun e he => ?_, ?_, ?_, stage, ?_, fun e he => ?_⟩
  · rw [hid]
    exact h.ids e ((hlive e).mp he)
  · rw [hs.served]
    exact fun v hv => ⟨(h.correct v hv).1, (hid _).trans (h.correct v hv).2⟩
  · rw [hs.served, hs.store]
    exact h.threads
  · rw [hserver]
    refine hok.congr hs hid (fun e => (hlive e).mpr) fun e he => ?_
    by_cases hec : e = c
    · subst hec
      exact (hc _ (hclients e hne)).2 he
    · exact hbuf e hec
  · by_cases hec : e = c
    · subst hec
      exact (hc _ (hclients e hne)).1
    · rw [hpc e hec]
      refine (hclients e he).congr (henv e hec) (hbuf e hec) (by rw [hdst]) (hcalled e hec) ?_
        (hret e hec)
      rw [State.servedOf, State.servedOf, hs.served]

lemma Inv.goto (h : Inv s) (hne : c ≠ SERVER) {pc : ClientPc}
    (hc : ∀ st, ClientOk s c st (s.client c) → ClientOk s c st pc) : Inv (s.goto c pc) := by
  refine h.client (c := c) ⟨rfl, rfl, rfl, rfl, rfl⟩ rfl (fun _ => rfl) (fun _ => Iff.rfl)
    (fun _ _ => rfl) (fun _ _ => rfl) rfl (fun _ _ => rfl) (fun _ _ => rfl) (fun e he => ?_)
    (fun st hst => ⟨?_, fun _ => rfl⟩) hne
  · exact Function.update_of_ne he _ _
  · have hpc : (s.goto c pc).client c = pc := Function.update_self ..
    rw [hpc]
    exact (hc st hst).congr rfl rfl rfl rfl rfl rfl

/-- The `struct Env` of `c` after `sys_ipc_recv`. -/
lemma recv_ok {envs : ℕ → Env} {dstva : Word} (hc : (envs c).envStatus = .runnable) (e : ℕ) :
    (Ipc.recv envs c dstva e).envId = (envs e).envId ∧
      ((Ipc.recv envs c dstva e).envStatus ≠ .free ↔ (envs e).envStatus ≠ .free) := by
  by_cases he : e = c
  · subst he
    simp [Ipc.recv, hc]
  · simp [Ipc.recv, he]

/-- The `struct Env` of `e` after a message. -/
lemma deliver_ok {envs : ℕ → Env} {e : ℕ} {value perm : Word}
    (he : (envs e).envStatus ≠ .free) (z : ℕ) :
    (Ipc.deliver envs c e value perm z).envId = (envs z).envId ∧
      ((Ipc.deliver envs c e value perm z).envStatus ≠ .free ↔ (envs z).envStatus ≠ .free) := by
  by_cases hz : z = e
  · subst hz
    simp [Ipc.deliver, he]
  · simp [Ipc.deliver, hz]

lemma Inv.call (h : Inv s) (hne : c ≠ SERVER) (hpc : s.client c = .idle) {type : Word}
    {contents : κ} : Inv (s.call c type contents) := by
  refine h.client (c := c) ⟨rfl, rfl, rfl, rfl, rfl⟩ rfl (fun _ => rfl) (fun _ => Iff.rfl)
    (fun _ _ => rfl) (fun e he => ?_) rfl (fun e he => ?_) (fun _ _ => rfl) (fun e he => ?_)
    (fun st hst => ?_) hne
  · exact Function.update_of_ne he _ _
  · exact Function.update_of_ne he _ _
  · exact Function.update_of_ne he _ _
  · rw [hpc] at hst
    obtain ⟨hnone, hrecv, hcalled, hreplies⟩ := hst
    have hpc' : (s.call c type contents).client c = .send type := Function.update_self ..
    rw [hpc']
    refine ⟨⟨hnone, hrecv, ?_, hreplies⟩, fun hst => absurd hnone hst⟩
    have hcalled' : (s.call c type contents).called c = s.called c ++ [(type, contents)] :=
      Function.update_self ..
    have hbuf : (s.call c type contents).buf c = contents := Function.update_self ..
    rw [hcalled', hbuf, hcalled]
    rfl

lemma Inv.await (h : Inv s) (hne : c ≠ SERVER) (hrun : (s.envs c).envStatus = .runnable)
    (hpc : s.client c = .recv) {dstva : Word} : Inv (s.await c dstva) := by
  refine h.client (c := c) ⟨?_, rfl, rfl, rfl, rfl⟩ rfl (fun e => (recv_ok hrun e).1)
    (fun e => (recv_ok hrun e).2) (fun e he => ?_) (fun _ _ => rfl) rfl (fun _ _ => rfl)
    (fun _ _ => rfl) (fun e he => ?_) (fun st hst => ⟨?_, fun _ => rfl⟩) hne
  · exact Function.update_of_ne hne.symm _ _
  · exact Function.update_of_ne he _ _
  · exact Function.update_of_ne he _ _
  · rw [hpc] at hst
    have hpc' : (s.await c dstva).client c = .blocked := Function.update_self ..
    rw [hpc']
    left
    refine ⟨?_, ?_, ?_⟩
    · simp [State.await, Ipc.recv]
    · simp [State.await, Ipc.recv]
    · cases st <;> exact hst.2

lemma Inv.ret (h : Inv s) (hne : c ≠ SERVER) (hpc : s.client c = .reading) : Inv (s.ret c) := by
  refine h.client (c := c) ⟨rfl, rfl, rfl, rfl, rfl⟩ rfl (fun _ => rfl) (fun _ => Iff.rfl)
    (fun _ _ => rfl) (fun _ _ => rfl) rfl (fun _ _ => rfl) (fun e he => ?_) (fun e he => ?_)
    (fun st hst => ⟨?_, fun _ => rfl⟩) hne
  · exact Function.update_of_ne he _ _
  · exact Function.update_of_ne he _ _
  · rw [hpc] at hst
    obtain ⟨hnone, hrecv, hcalled, hreplies⟩ := hst
    have hpc' : (s.ret c).client c = .idle := Function.update_self ..
    have hret : (s.ret c).returned c = s.returned c ++ [((s.envs c).envIpcValue, s.dst c)] :=
      Function.update_self ..
    rw [hpc']
    refine ⟨hnone, hrecv, hcalled, ?_⟩
    rw [hret, List.map_append]
    exact hreplies

/-- Who may send to the server finds it waiting for a request, with nothing to do. -/
lemma ServerOk.waiting {pc : ServerPc P} (h : ServerOk s stage pc)
    (hrecv : (s.envs SERVER).envIpcRecving ≠ 0#32) :
    pc = .blocked ∧ (s.envs SERVER).envStatus = .notRunnable ∧
      s.received = s.served.map (·.toRequest) ∧ stage = fun _ => .none := by
  cases pc with
  | blocked =>
      rcases h with h | h
      · exact ⟨rfl, h.2.1, h.2.2.1, h.2.2.2.2⟩
      · exact absurd h.1.idle hrecv
  | readFrom | readPerm | handle => exact absurd h.1.idle hrecv
  | recv | reply | yield | unmap => exact absurd h.1.idle hrecv
  | failed => exact h.elim

lemma Inv.request (h : Inv s) (hne : c ≠ SERVER) (hrun : (s.envs c).envStatus = .runnable)
    {type : Word} (hpc : s.client c = .send type)
    (hrecv : (s.envs SERVER).envIpcRecving ≠ 0#32) : Inv (s.request c type) := by
  obtain ⟨stage, hserver, hclients⟩ := h.sync
  obtain ⟨hpcs, hstatus, hreceived, rfl⟩ := hserver.waiting hrecv
  have hcid : ENVX (s.envs c).envId = c := h.ids c (by rw [hrun]; exact nofun)
  have hok := @deliver_ok c s.envs SERVER type PTE_W h.live
  refine ⟨(hok SERVER).2.mpr h.live, fun e he => ?_, fun v hv => ?_, h.threads,
    Function.update (fun _ => .none) c (.received type), ?_, fun e he => ?_⟩
  · rw [show ((s.request c type).envs e).envId = (s.envs e).envId from (hok e).1]
    exact h.ids e ((hok e).2.mp he)
  · exact ⟨(h.correct v hv).1, (hok _).1.trans (h.correct v hv).2⟩
  · change ServerOk _ _ s.server
    rw [hpcs]
    right
    have hfrom : ((s.request c type).envs SERVER).envIpcFrom = (s.envs c).envId := by
      simp [State.request, Ipc.deliver]
    have hvalue : ((s.request c type).envs SERVER).envIpcValue = type := by
      simp [State.request, Ipc.deliver]
    have hperm : ((s.request c type).envs SERVER).envIpcPerm &&& PTE_V ≠ 0#32 := by
      simp [State.request, Ipc.deliver]
      decide
    have hsame : (s.request c type).envs c = s.envs c := Function.update_of_ne hne _ _
    rw [hfrom, hvalue]
    refine ⟨⟨?_, ?_, ?_, ?_, ?_, ?_, ?_⟩, hperm⟩
    · simp [State.request, Ipc.deliver]
    · rwa [hcid]
    · rw [hcid, hsame, hrun]
      exact nofun
    · rw [hcid, hsame]
    · rw [hcid]
      rfl
    · rw [hcid]
    · rw [hcid]
      change s.received ++ _ = _
      rw [hreceived]
      rfl
  · have henv : (s.request c type).envs e = s.envs e := Function.update_of_ne he _ _
    by_cases hec : e = c
    · subst hec
      have hst := hclients e he
      rw [hpc] at hst
      have hpc' : (s.request e type).client e = .recv := Function.update_self ..
      rw [hpc', Function.update_self]
      refine ⟨by rw [henv]; exact hst.2.1, hst.2.2⟩
    · have hpc' : (s.request c type).client e = s.client e := Function.update_of_ne hec _ _
      rw [hpc', Function.update_of_ne hec]
      exact (hclients e he).congr henv rfl rfl rfl rfl rfl

/-- A step of the server that changes nothing but its place. -/
lemma Inv.setServer (h : Inv s) {pc : ServerPc P}
    (hpc : ∀ stage, ServerOk s stage s.server → ServerOk s stage pc) :
    Inv { s with server := pc } := by
  obtain ⟨stage, hserver, hclients⟩ := h.sync
  exact ⟨h.live, h.ids, h.correct, h.threads, stage,
    (hpc stage hserver).congr ⟨rfl, rfl, rfl, rfl, rfl⟩ (fun _ => rfl)
      (fun _ he => he) fun _ _ => rfl,
    fun e he => (hclients e he).congr rfl rfl rfl rfl rfl rfl⟩

/-- What is left to do once a request is served. -/
def Stage.ofReply : Option (Reply π) → Stage π
  | Option.none => .none
  | some r => .replying r

lemma servedOf_serve {whom req : Word} {after : σ} {reply : Option (Reply π)} {pc : ServerPc P} :
    (s.serve whom req after reply pc).servedOf (ENVX whom) = s.servedOf (ENVX whom) ++
      [⟨⟨ENVX whom, req, s.page⟩, whom, s.store, after, reply⟩] := by
  simp [State.servedOf, State.serve]

lemma servedOf_serve_of_ne {whom req : Word} {after : σ} {reply : Option (Reply π)}
    {pc : ServerPc P} (hc : c ≠ ENVX whom) :
    (s.serve whom req after reply pc).servedOf c = s.servedOf c := by
  simp [State.servedOf, State.serve, Ne.symm hc]

/-- A request that waits to be served is then served. -/
lemma Outstanding.serve {whom req : Word} {after : σ} {reply : Option (Reply π)} {pc : ServerPc P}
    (h : Outstanding s (ENVX whom) (.received req)) (hreqva : s.reqva = some (ENVX whom)) :
    Outstanding (s.serve whom req after reply pc) (ENVX whom) (.ofReply reply) := by
  obtain ⟨hcalled, hreplies⟩ := h
  have hreq : (s.serve whom req after reply pc).requests (ENVX whom) =
      s.requests (ENVX whom) ++ [(req, s.buf (ENVX whom))] := by
    rw [State.requests, servedOf_serve, List.map_append, page_eq hreqva]
    rfl
  have hrep : (s.serve whom req after reply pc).replies (ENVX whom) =
      s.replies (ENVX whom) ++ [reply.map fun r => (r.value, r.page)] := by
    rw [State.replies, servedOf_serve, List.map_append]
    rfl
  cases reply with
  | none => exact ⟨hcalled.trans hreq.symm, by rw [hrep, hreplies]; rfl⟩
  | some r => exact ⟨hcalled.trans hreq.symm, by rw [hrep, hreplies]; rfl⟩

lemma Inv.serve (h : Inv s) {whom req : Word} {after : σ} {reply : Option (Reply π)}
    {pc : ServerPc P} (hbusy : ∃ stage, Busy s stage whom req ∧
      ∀ c, c ≠ SERVER → ClientOk s c (stage c) (s.client c))
    (hcorrect : Served.Correct P ⟨⟨ENVX whom, req, s.page⟩, whom, s.store, after, reply⟩)
    (hok : ∀ s' : State P, Served.All s' → s'.envs = s.envs → s'.reqva = s.reqva →
      ServerOk s' (Function.update (fun _ => .none) (ENVX whom) (.ofReply reply)) pc) :
    Inv (s.serve whom req after reply pc) := by
  obtain ⟨stage, hbusy, hclients⟩ := hbusy
  obtain ⟨a, ha⟩ := h.threads
  refine ⟨h.live, h.ids, fun v hv => ?_, ⟨a, ha.append _ rfl⟩,
    Function.update (fun _ => .none) (ENVX whom) (.ofReply reply), hok _ ⟨hbusy.idle, ?_⟩ rfl rfl,
    fun c hc => ?_⟩
  · rcases List.mem_append.mp hv with hv | hv
    · exact h.correct v hv
    · rw [List.mem_singleton.mp hv]
      exact ⟨hcorrect, hbusy.id⟩
  · rw [State.serve, page_eq hbusy.reqva, List.map_append]
    exact hbusy.received
  · have hcok := hclients c hc
    rw [hbusy.stage] at hcok
    by_cases hcw : c = ENVX whom
    · subst hcw
      rw [Function.update_self] at hcok ⊢
      rcases hcok.waiting nofun with ⟨hpc, hrecv, hout⟩ | ⟨hpc, hrecv, hstatus, hout⟩
      · exact .of_waiting (.inl ⟨hpc, hrecv⟩) (hout.serve hbusy.reqva)
      · exact .of_waiting (.inr ⟨hpc, hrecv, hstatus⟩) (hout.serve hbusy.reqva)
    · rw [Function.update_of_ne hcw] at hcok ⊢
      exact hcok.congr rfl rfl rfl rfl (servedOf_serve_of_ne hcw) rfl

lemma Inv.answer (h : Inv s) {whom : Word} {r : Reply π} (hpc : s.server = .reply whom r)
    (hrecv : (s.envs (ENVX whom)).envIpcRecving ≠ 0#32) : Inv (s.answer (ENVX whom) r) := by
  obtain ⟨stage, hserver, hclients⟩ := h.sync
  rw [hpc] at hserver
  obtain ⟨hall, hne, hlive, hid, -, rfl⟩ := hserver
  have hok := @deliver_ok SERVER s.envs (ENVX whom) r.value r.perm hlive
  have hsame : (s.answer (ENVX whom) r).envs SERVER = s.envs SERVER :=
    Function.update_of_ne hne.symm _ _
  refine ⟨(hok SERVER).2.mpr h.live, fun e he => ?_, fun v hv => ?_, h.threads, fun _ => .none,
    ⟨⟨?_, hall.received⟩, rfl⟩, fun c hc => ?_⟩
  · rw [show ((s.answer (ENVX whom) r).envs e).envId = (s.envs e).envId from (hok e).1]
    exact h.ids e ((hok e).2.mp he)
  · exact ⟨(h.correct v hv).1, (hok _).1.trans (h.correct v hv).2⟩
  · rw [hsame]
    exact hall.idle
  · have hcok := hclients c hc
    by_cases hcw : c = ENVX whom
    · subst hcw
      rw [Function.update_self] at hcok
      rcases hcok.waiting nofun with ⟨-, hrecv', -⟩ | ⟨hpc', -, -, hcalled, hreplies⟩
      · exact absurd hrecv' hrecv
      · change ClientOk _ _ _ (s.client _)
        rw [hpc']
        refine .inr ⟨rfl, ?_, hcalled, ?_⟩
        · simp [State.answer, Ipc.deliver]
        · have hvalue : ((s.answer (ENVX whom) r).envs (ENVX whom)).envIpcValue = r.value := by
            simp [State.answer, Ipc.deliver]
          have hdst : (s.answer (ENVX whom) r).dst (ENVX whom) = r.page := Function.update_self ..
          rw [hvalue, hdst]
          exact hreplies
    · rw [Function.update_of_ne hcw] at hcok
      exact hcok.congr (Function.update_of_ne hcw _ _) rfl
        (Function.update_of_ne hcw _ _) rfl rfl rfl

lemma Inv.recv (h : Inv s) (hrun : (s.envs SERVER).envStatus = .runnable)
    (hpc : s.server = .recv) :
    Inv ({ s with envs := Ipc.recv s.envs SERVER REQVA, server := .blocked } : State P) := by
  obtain ⟨stage, hserver, hclients⟩ := h.sync
  rw [hpc] at hserver
  obtain ⟨hall, hreqva, rfl⟩ := hserver
  have hok := @recv_ok SERVER s.envs REQVA hrun
  refine ⟨(hok SERVER).2.mpr h.live, fun e he => ?_, fun v hv => ?_, h.threads, fun _ => .none,
    .inl ⟨?_, ?_, hall.received, hreqva, rfl⟩, fun c hc => ?_⟩
  · rw [(hok e).1]
    exact h.ids e ((hok e).2.mp he)
  · exact ⟨(h.correct v hv).1, (hok _).1.trans (h.correct v hv).2⟩
  · simp [Ipc.recv]
  · simp [Ipc.recv]
  · exact (hclients c hc).congr (Function.update_of_ne hc _ _) rfl rfl rfl rfl rfl

lemma Inv.unmap (h : Inv s) (hpc : s.server = .unmap) :
    Inv ({ s with reqva := none, server := .recv } : State P) := by
  obtain ⟨stage, hserver, hclients⟩ := h.sync
  rw [hpc] at hserver
  exact ⟨h.live, h.ids, h.correct, h.threads, stage,
    ⟨⟨hserver.1.idle, hserver.1.received⟩, rfl, hserver.2⟩,
    fun c hc => (hclients c hc).congr rfl rfl rfl rfl rfl rfl⟩

lemma Inv.step {a : Act κ} (h : Inv s) (ha : a.Granted) (hs : Step s a s') : Inv s' := by
  cases hs with
  | call hc hrun hpc => exact h.call hc hpc
  | request hc hrun hpc _ hrecv => exact h.request hc hrun hpc hrecv
  | requestFailed => exact ha.elim
  | notRecv hc hrun hpc _ hrecv => exact h.goto hc fun st hst => by rwa [hpc] at hst
  | noServer hc hrun hpc hfree => exact absurd hfree h.live
  | yield hc hrun hpc => exact h.goto hc fun st hst => by rwa [hpc] at hst
  | await hc hrun hpc hva => exact h.await hc hrun hpc
  | resume hc hrun hpc =>
      refine h.goto hc fun st hst => ?_
      rw [hpc] at hst
      rcases hst with ⟨-, hstatus, -⟩ | hst
      · rw [hstatus] at hrun
        cases hrun
      · exact hst
  | ret hc hrun hpc => exact h.ret hc hpc
  | exit hc hrun hpc =>
      obtain ⟨stage, -, hclients⟩ := h.sync
      have hc := hclients _ hc
      rw [hpc] at hc
      exact hc.elim
  | tick => exact h
  | recv hrun hpc => exact h.recv hrun hpc
  | readFrom hrun hpc =>
      refine h.setServer fun stage hst => ?_
      rw [hpc] at hst
      rcases hst with ⟨-, hstatus, -⟩ | hst
      · rw [hstatus] at hrun
        cases hrun
      · exact hst
  | readPerm hrun hpc => exact h.setServer fun stage hst => by rwa [hpc] at hst
  | noPage hrun hpc hperm =>
      refine h.setServer fun stage hst => ?_
      rw [hpc] at hst
      exact absurd hperm hst.2
  | handle hrun hpc hperm hvalue hreq =>
      refine h.setServer fun stage hst => ?_
      rw [hpc] at hst
      exact ⟨hvalue ▸ hst.1, hreq, fun _ hr => hr⟩
  | invalid hrun hpc hperm hvalue hreq =>
      obtain ⟨stage, hserver, hclients⟩ := h.sync
      rw [hpc] at hserver
      refine h.serve ⟨stage, hvalue ▸ hserver.1, hclients⟩ ⟨hreq, rfl⟩ fun s' hall _ _ => ?_
      exact ⟨hall, Function.update_eq_self _ _⟩
  | work hrun hpc hl =>
      refine h.setServer fun stage hst => ?_
      rw [hpc] at hst
      exact ⟨hst.1, hst.2.1, fun r hr => hst.2.2 r (.step hl hr)⟩
  | done hrun hpc hl =>
      obtain ⟨stage, hserver, hclients⟩ := h.sync
      rw [hpc] at hserver
      obtain ⟨hbusy, hreq, hans⟩ := hserver
      refine h.serve ⟨stage, hbusy, hclients⟩ ⟨hreq, hans _ (.done hl)⟩
        fun s' hall henvs hreqva => ?_
      exact ⟨hall, hbusy.ne, henvs ▸ hbusy.live, henvs ▸ hbusy.id, hreqva.trans hbusy.reqva, rfl⟩
  | answer hrun hpc hid hrecv => exact h.answer hpc hrecv
  | answerFailed => exact ha.elim
  | noClient hrun hpc hid =>
      obtain ⟨stage, hserver, -⟩ := h.sync
      rw [hpc] at hserver
      obtain ⟨-, -, hlive, hid', -⟩ := hserver
      exact absurd ⟨hlive, hid'⟩ hid
  | serverExit hrun hpc =>
      obtain ⟨stage, hserver, -⟩ := h.sync
      rw [hpc] at hserver
      exact hserver.elim
  | replyNotRecv hrun hpc hid hrecv => exact h.setServer fun stage hst => by rwa [hpc] at hst
  | replyYield hrun hpc => exact h.setServer fun stage hst => by rwa [hpc] at hst
  | unmap hrun hpc => exact h.unmap hpc

lemma ReachesGranted.inv (h : ReachesGranted s) : Inv s := by
  refine Reachable.invariant h (fun s hs => ?_) fun s a s' hinv hstep => hinv.step hstep.1 hstep.2
  refine ⟨hs.live, hs.ids, fun v hv => ?_, ⟨s.store, ?_⟩, fun _ => .none, ?_, fun c _ => ?_⟩
  · rw [hs.served] at hv
    cases hv
  · rw [hs.served]
    rfl
  · rw [hs.server]
    exact ⟨⟨hs.recving _, by rw [hs.received, hs.served]; rfl⟩, hs.reqva, rfl⟩
  · rw [hs.client]
    refine ⟨rfl, hs.recving c, ?_, ?_⟩
    · rw [hs.called, State.requests, State.servedOf, hs.served]
      rfl
    · rw [hs.returned, State.replies, State.servedOf, hs.served]
      rfl

end

/-! ## Requests and replies -/

/-- The calls of a client, what was served for it and what its calls returned go together, one by
one. -/
lemma ClientOk.matched {P : Handlers σ κ π} {s : State P} {c : ℕ} {st : Stage π} {pc : ClientPc}
    (h : ClientOk s c st pc) :
    s.requests c <+: s.called c ∧ (s.called c).length ≤ (s.requests c).length + 1 ∧
      (s.returned c).map some <+: s.replies c ∧
      (s.replies c).length ≤ (s.returned c).length + 1 := by
  have hsame : s.called c = s.requests c →
      s.requests c <+: s.called c ∧ (s.called c).length ≤ (s.requests c).length + 1 :=
    fun h => ⟨h ▸ List.prefix_rfl, by rw [h]; exact Nat.le_succ _⟩
  have hmore : ∀ x, s.called c = s.requests c ++ [x] →
      s.requests c <+: s.called c ∧ (s.called c).length ≤ (s.requests c).length + 1 :=
    fun x h => ⟨h ▸ List.prefix_append _ _, by rw [h, List.length_append]; rfl⟩
  have hback : s.replies c = (s.returned c).map some →
      (s.returned c).map some <+: s.replies c ∧
        (s.replies c).length ≤ (s.returned c).length + 1 :=
    fun h => ⟨h ▸ List.prefix_rfl, by rw [h, List.length_map]; exact Nat.le_succ _⟩
  have hnext : ∀ x, s.replies c = (s.returned c).map some ++ [x] →
      (s.returned c).map some <+: s.replies c ∧
        (s.replies c).length ≤ (s.returned c).length + 1 :=
    fun x h => ⟨h ▸ List.prefix_append _ _, by rw [h, List.length_append, List.length_map]; rfl⟩
  have hout : Outstanding s c st → s.requests c <+: s.called c ∧
      (s.called c).length ≤ (s.requests c).length + 1 ∧
      (s.returned c).map some <+: s.replies c ∧
      (s.replies c).length ≤ (s.returned c).length + 1 := by
    intro h
    cases st with
    | none => exact and_assoc.mp ⟨hsame h.1, hnext _ h.2⟩
    | received type => exact and_assoc.mp ⟨hmore _ h.1, hback h.2⟩
    | replying r => exact and_assoc.mp ⟨hsame h.1, hnext _ h.2⟩
  cases pc with
  | idle => exact and_assoc.mp ⟨hsame h.2.2.1, hback h.2.2.2⟩
  | send | yield => exact and_assoc.mp ⟨hmore _ h.2.2.1, hback h.2.2.2⟩
  | recv => exact hout h.2
  | blocked =>
      rcases h with h | h
      · exact hout h.2.2
      · exact and_assoc.mp ⟨hsame h.2.2.1, hnext _ h.2.2.2⟩
  | reading => exact and_assoc.mp ⟨hsame h.2.2.1, hnext _ h.2.2.2⟩
  | failed => exact h.elim

/-- The client whose request the server handles. -/
def ServerPc.handling {P : Handlers σ κ π} : ServerPc P → Option Word
  | .handle whom _ _ | .reply whom _ | .yield whom _ => some whom
  | _ => none

section

variable [Inhabited κ] {P : Handlers σ κ π} {s : State P} {stage : ℕ → Stage π} {pc : ServerPc P}

/-- The server has served what it received, but for the last request at most. -/
lemma ServerOk.inOrder (h : ServerOk s stage pc) :
    ∃ pending : List (Request κ), s.received = s.served.map (·.toRequest) ++ pending ∧
      pending.length ≤ 1 := by
  have hall : s.received = s.served.map (·.toRequest) → ∃ pending : List (Request κ),
      s.received = s.served.map (·.toRequest) ++ pending ∧ pending.length ≤ 1 :=
    fun h => ⟨[], by rw [h, List.append_nil], Nat.zero_le _⟩
  cases pc with
  | recv | reply | yield | unmap => exact hall h.1.received
  | blocked =>
      rcases h with h | h
      · exact hall h.2.2.1
      · exact ⟨_, h.1.received, le_rfl⟩
  | readFrom | readPerm | handle => exact ⟨_, h.1.received, le_rfl⟩
  | failed => exact h.elim

lemma ServerOk.handling {whom : Word} (h : ServerOk s stage pc) (hpc : pc.handling = some whom) :
    ∃ c, (s.envs c).envId = whom ∧ s.reqva = some c := by
  cases pc with
  | recv | blocked | readFrom | readPerm | unmap | failed => cases hpc
  | handle => exact ⟨_, (Option.some.inj hpc) ▸ h.1.id, h.1.reqva⟩
  | reply | yield =>
      obtain ⟨-, -, -, hid, hreqva, -⟩ := h
      exact ⟨_, (Option.some.inj hpc) ▸ hid, hreqva⟩

/-- While a handler runs, the page at `REQVA` is the page of its client, as the client sent it. -/
lemma Inv.handle (h : Inv s) {whom req : Word} {l : P.Local} (hpc : s.server = .handle whom req l) :
    s.received = s.served.map (·.toRequest) ++ [⟨ENVX whom, req, s.page⟩] ∧
      s.called (ENVX whom) = s.requests (ENVX whom) ++ [(req, s.page)] := by
  obtain ⟨stage, hserver, hclients⟩ := h.sync
  rw [hpc] at hserver
  obtain ⟨hbusy, -⟩ := hserver
  have hc := hclients _ hbusy.ne
  rw [hbusy.stage, Function.update_self] at hc
  rw [page_eq hbusy.reqva]
  rcases hc.waiting nofun with ⟨-, -, hout⟩ | ⟨-, -, -, hout⟩
  · exact ⟨hbusy.received, hout.1⟩
  · exact ⟨hbusy.received, hout.1⟩

end

/-- **What is never to be mixed up.** -/
structure Paired [Inhabited κ] {P : Handlers σ κ π} (s : State P) : Prop where
  /-- What the server served for a client is, in order, what it called; the last call may be on its
  way. -/
  calls : ∀ c, c ≠ SERVER → s.requests c <+: s.called c ∧
    (s.called c).length ≤ (s.requests c).length + 1
  /-- What the calls of a client returned is, in order, the answers that the server gave. -/
  returns : ∀ c, c ≠ SERVER → (s.returned c).map some <+: s.replies c ∧
    (s.replies c).length ≤ (s.returned c).length + 1
  /-- Every answer is what the handler computes from the type and the contents of the request it was
  served for. -/
  correct : ∀ v ∈ s.served, v.Correct P ∧ (s.envs v.client).envId = v.envid
  threads : ∃ boot, Threads boot s.served s.store
  /-- The requests were served in the order in which they were received, each once, but for the last
  one at most. -/
  inOrder : ∃ pending : List (Request κ), s.received = s.served.map (·.toRequest) ++ pending ∧
    pending.length ≤ 1
  /-- While the server handles a request, the page of that request is mapped at `REQVA`, … -/
  handling : ∀ whom, s.server.handling = some whom →
    ∃ c, (s.envs c).envId = whom ∧ s.reqva = some c
  /-- … with the contents it was sent with. -/
  contents : ∀ whom req l, s.server = .handle whom req l →
    s.received = s.served.map (·.toRequest) ++ [⟨ENVX whom, req, s.page⟩] ∧
      s.called (ENVX whom) = s.requests (ENVX whom) ++ [(req, s.page)]

/-- **Requests and replies are never mixed up**, in any run in which no page table is refused to a
send. -/
theorem fsipc_never_mixed_up [Inhabited κ] (P : Handlers σ κ π) (s : State P)
    (h : ReachesGranted s) :
    Paired s := by
  obtain ⟨stage, hserver, hclients⟩ := h.inv.sync
  exact {
    calls := by
      intro c hc
      obtain ⟨hcalls, hlast, -⟩ := (hclients c hc).matched
      exact ⟨hcalls, hlast⟩
    returns := by
      intro c hc
      obtain ⟨-, -, hreturns⟩ := (hclients c hc).matched
      exact hreturns
    correct := h.inv.correct
    threads := h.inv.threads
    inOrder := hserver.inOrder
    handling := fun whom hpc => hserver.handling hpc
    contents := fun whom req l hpc => h.inv.handle hpc }

/-- A server that counts its requests and answers with the contents of the page, and with a page of
its own. -/
def echo : Handlers ℕ Word Unit where
  Local := ℕ × Bool
  start n _ _ := (n, false)
  next l page := if l.2 then .inr (l.1 + 1, ⟨page, some (), PTE_R⟩) else .inl (l.1, true)

/-- Two clients and the server, each before its first call. -/
def start : State echo where
  envs e := { zeroEnv with
    envId := BitVec.ofNat 32 (1024 + e), envStatus := if e < 3 then .runnable else .free }
  buf _ := 0#32
  reqva := none
  dst _ := none
  store := 0
  client _ := .idle
  server := .recv
  called _ := []
  received := []
  served := []
  returned _ := []

lemma initial_start : Initial start where
  live := nofun
  ids e he := by
    have he : e < 3 := by
      by_contra hge
      exact he (if_neg hge)
    interval_cases e <;> rfl
  recving _ := rfl
  reqva := rfl
  client _ := rfl
  server := rfl
  called _ := rfl
  received := rfl
  served := rfl
  returned _ := rfl

lemma ReachesGranted.next [Inhabited κ] {P : Handlers σ κ π} {s s' : State P} {a : Act κ}
    (h : ReachesGranted s) (hs : Step s a s') (ha : a.Granted) : ReachesGranted s' :=
  Reachable.step h ⟨ha, hs⟩

/-- A call, which the server tries to answer before the client waits, and after it the call of
another client. -/
theorem fsipc_never_mixed_up_echo : ∃ s : State echo, ReachesGranted s ∧
    s.called 0 = [(FSREQ_SYNC, 5#32)] ∧ s.returned 0 = [(5#32, some ())] ∧
    s.received = [⟨0, FSREQ_SYNC, 5#32⟩, ⟨2, FSREQ_SYNC, 6#32⟩] ∧ Paired s := by
  have h : ReachesGranted start := .init initial_start
  have h := h.next (@Step.call _ _ _ _ _ _ 0 FSREQ_SYNC 5#32 (by decide) rfl rfl) trivial
  have h := h.next (Step.notRecv (c := 0) (by decide) rfl rfl nofun rfl) trivial
  have h := h.next (Step.recv rfl rfl) trivial
  have h := h.next (Step.yield (c := 0) (by decide) rfl rfl) trivial
  have h := h.next (Step.request (c := 0) (by decide) rfl rfl nofun (by decide)) trivial
  have h := h.next (Step.readFrom rfl rfl) trivial
  have h := h.next (@Step.call _ _ _ _ _ _ 2 FSREQ_SYNC 6#32 (by decide) rfl rfl) trivial
  have h := h.next (Step.readPerm rfl rfl) trivial
  have h := h.next (Step.handle rfl rfl (by decide) rfl rfl) trivial
  have h := h.next (Step.work rfl rfl rfl) trivial
  have h := h.next (Step.done rfl rfl rfl) trivial
  have h := h.next (Step.replyNotRecv rfl rfl ⟨by decide, rfl⟩ rfl) trivial
  have h := h.next (@Step.await _ _ _ _ _ _ 0 0x60000000#32 (by decide) rfl rfl (by decide)) trivial
  have h := h.next (Step.replyYield rfl rfl) trivial
  have h := h.next (Step.answer rfl rfl ⟨by decide, rfl⟩ (by decide)) trivial
  have h := h.next (Step.unmap rfl rfl) trivial
  have h := h.next (Step.resume (c := 0) (by decide) rfl rfl) trivial
  have h := h.next (Step.recv rfl rfl) trivial
  have h := h.next (Step.ret (c := 0) (by decide) rfl rfl) trivial
  have h := h.next (Step.request (c := 2) (by decide) rfl rfl nofun (by decide)) trivial
  exact ⟨_, h, rfl, rfl, rfl, fsipc_never_mixed_up echo _ h⟩

/-- The answer is not mapped, for want of a page table: the call returns what the server has
computed, but without the page. -/
theorem mixed_up_refused : ∃ s : State echo, Reaches s ∧ s.returned 0 = [(5#32, none)] ∧
    s.replies 0 = [some (5#32, some ())] ∧ ¬ Paired s := by
  have h : Reaches start := .init initial_start
  have h := h.step (@Step.call _ _ _ _ _ _ 0 FSREQ_MAP 5#32 (by decide) rfl rfl)
  have h := h.step (Step.recv rfl rfl)
  have h := h.step (Step.request (c := 0) (by decide) rfl rfl nofun (by decide))
  have h := h.step (@Step.await _ _ _ _ _ _ 0 0x60000000#32 (by decide) rfl rfl (by decide))
  have h := h.step (Step.readFrom rfl rfl)
  have h := h.step (Step.readPerm rfl rfl)
  have h := h.step (Step.handle rfl rfl (by decide) rfl rfl)
  have h := h.step (Step.work rfl rfl rfl)
  have h := h.step (Step.done rfl rfl rfl)
  have h := h.step (Step.answerFailed rfl rfl ⟨by decide, rfl⟩ (by decide) rfl)
  have h := h.step (Step.resume (c := 0) (by decide) rfl rfl)
  have h := h.step (Step.ret (c := 0) (by decide) rfl rfl)
  refine ⟨_, h, rfl, rfl, fun hp => ?_⟩
  have hprefix := (hp.returns 0 (by decide)).1
  change [some (5#32, none)] <+: [some (5#32, some ())] at hprefix
  simp at hprefix

end

end FsIpc

end MosRv
