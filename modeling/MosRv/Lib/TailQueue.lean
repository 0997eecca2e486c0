import MosRv.Lib.LinkedLists

/-!
# Tail queues made of pointers

The doubly linked tail queue of the BSD `queue.h`: a node keeps a pointer to the next node and the
*address of the pointer that points at it*, and the head keeps a pointer to the first node and the
address of the final null pointer.  `Link α` are these addresses: a field of the head, a field of a
node, or null.  A store through a null address has no result (`none`).

`Rep q as` says that the pointers represent the sequence `as`.  Under it `insertHead`,
`insertTail` and `remove` do to the sequence what their names say, provided the inserted node is
not on the list and the removed one is (`Rep.insertHead`, `Rep.insertTail`, `Rep.remove`).  A tail
queue is a memory with one head and one link field (`Queue.heap`), so these are the rules of the
linked lists there.
-/

open LinkedLists (Addr Heap Chain)

namespace TailQueue

variable {α : Type}

/-- The address of a pointer to a node. -/
inductive Link (α : Type)
  | null
  /-- The head's pointer to the first node. -/
  | head
  /-- The next-pointer of a node. -/
  | next (a : α)
  deriving DecidableEq, Repr

/-- A tail queue: the two fields of the head and the two fields of every node. -/
structure Queue (α : Type) where
  first : Option α
  last : Link α
  next : α → Option α
  prev : α → Link α

namespace Queue

variable (q : Queue α)

/-- The pointer stored at an address. -/
def deref : Link α → Option α
  | .null => none
  | .head => q.first
  | .next a => q.next a

/-- `TAILQ_INIT`. -/
def init : Queue α := { q with first := none, last := .head }

variable [DecidableEq α]

/-- Store a pointer at an address. -/
def store : Link α → Option α → Option (Queue α)
  | .null, _ => none
  | .head, v => some { q with first := v }
  | .next a, v => some { q with next := Function.update q.next a v }

/-- `TAILQ_INSERT_HEAD`. -/
def insertHead (a : α) : Queue α :=
  let q := { q with next := Function.update q.next a q.first }
  let q := match q.first with
    | some b => { q with prev := Function.update q.prev b (.next a) }
    | none => { q with last := .next a }
  { q with first := some a, prev := Function.update q.prev a .head }

/-- `TAILQ_INSERT_TAIL`. -/
def insertTail (a : α) : Option (Queue α) :=
  let q := { q with next := Function.update q.next a none }
  let q := { q with prev := Function.update q.prev a q.last }
  (q.store q.last (some a)).map fun q => { q with last := .next a }

/-- `TAILQ_REMOVE`. -/
def remove (a : α) : Option (Queue α) :=
  let q := match q.next a with
    | some b => { q with prev := Function.update q.prev b (q.prev a) }
    | none => { q with last := q.prev a }
  q.store (q.prev a) (q.next a)

/-- The nodes that come from a pointer on, `n` of them at most. -/
def nodes : ℕ → Option α → List α
  | 0, _ => []
  | _, none => []
  | n + 1, some a => a :: nodes n (q.next a)

end Queue

/-- An operation on a node. -/
inductive Op (α : Type)
  | insertHead (a : α)
  | insertTail (a : α)
  | remove (a : α)

namespace Op

variable [DecidableEq α]

def apply : Op α → Queue α → Option (Queue α)
  | .insertHead a, q => some (q.insertHead a)
  | .insertTail a, q => q.insertTail a
  | .remove a, q => q.remove a

/-- The operation is used as it is meant to be: what is inserted is not among the first `n` nodes
of the queue, and what is removed is. -/
def proper (n : ℕ) (q : Queue α) : Op α → Bool
  | .insertHead a => decide (a ∉ q.nodes n q.first)
  | .insertTail a => decide (a ∉ q.nodes n q.first)
  | .remove a => decide (a ∈ q.nodes n q.first)

end Op

/-! ## Segments -/

/-- From the address `l`, following next-pointers, come the nodes `as`; each knows the address it
is reached through, and `l'` is the address after the last of them. -/
def Path (q : Queue α) : Link α → List α → Link α → Prop
  | l, [], l' => l = l'
  | l, a :: as, l' => q.deref l = some a ∧ q.prev a = l ∧ Path q (.next a) as l'

/-- The pointers of `q` represent the sequence `as`. -/
structure Rep (q : Queue α) (as : List α) : Prop where
  nodup : as.Nodup
  path : Path q .head as q.last
  stop : q.deref q.last = none

section

variable {q q' : Queue α} {as xs ys : List α} {a b : α} {l k l' : Link α}

lemma Rep.init (q : Queue α) : Rep q.init [] := ⟨List.nodup_nil, rfl, rfl⟩

/-! ## A tail queue as a memory with one list -/

/-- The address in a memory with one head and one link field. -/
def Link.addr : Link α → Addr Unit Unit α
  | .null => .null
  | .head => .first ()
  | .next a => .next () a

lemma addr_inj : l.addr = k.addr ↔ l = k := by
  cases l <;> cases k <;> simp [Link.addr]

lemma exists_addr (x : Addr Unit Unit α) : ∃ l : Link α, l.addr = x := by
  cases x with
  | null => exact ⟨.null, rfl⟩
  | first => exact ⟨.head, rfl⟩
  | next _ a => exact ⟨.next a, rfl⟩

/-- The pointers of a queue, in a memory that has nothing else in it. -/
def Queue.heap (q : Queue α) : Heap Unit Unit α where
  first _ := q.first
  last _ := q.last.addr
  next _ := q.next
  prev _ a := (q.prev a).addr

@[simp] lemma heap_deref : q.heap.deref l.addr = q.deref l := by cases l <;> rfl

lemma path_iff : ∀ {as : List α} {l : Link α},
    Path q l as l' ↔ LinkedLists.Path q.heap () l.addr as l'.addr
  | [], _ => addr_inj.symm
  | a :: as, l => by
      rw [Path, LinkedLists.Path, heap_deref, @path_iff as]
      exact and_congr_right fun _ => and_congr_left fun _ => addr_inj.symm

lemma rep_iff : Rep q as ↔ Chain q.heap () () as q.last.addr :=
  ⟨fun h => ⟨h.nodup, path_iff.mp h.path, heap_deref.trans h.stop⟩,
    fun h => ⟨h.nodup, path_iff.mpr h.path, heap_deref.symm.trans h.stop⟩⟩

lemma nodes_heap : ∀ (n : ℕ) (p : Option α), q.heap.nodes () n p = q.nodes n p
  | 0, _ => rfl
  | _ + 1, none => rfl
  | n + 1, some a => congrArg (a :: ·) (nodes_heap n (q.next a))

/-- Following the pointers gives the sequence. -/
lemma Rep.nodes_eq (h : Rep q as) {n : ℕ} (hn : as.length ≤ n) : q.nodes n q.first = as := by
  rw [← nodes_heap]
  exact (rep_iff.mp h).nodes_eq hn

/-! ## The operations on a represented sequence -/

lemma Rep.first_eq (h : Rep q as) : q.first = as.head? := (rep_iff.mp h).first_eq

lemma Path.ne_null (hp : Path q .head as k) : k ≠ .null := by
  rintro rfl
  exact LinkedLists.onPath_ne_null (path_iff.mp hp).onPath rfl

variable [DecidableEq α]

/-- What a store changes. -/
lemma exists_store (hl : l ≠ .null) (v : Option α) : ∃ q', q.store l v = some q' ∧
    (∀ k, q'.deref k = if k = l then v else q.deref k) ∧ q'.prev = q.prev ∧ q'.last = q.last := by
  cases l with
  | null => exact absurd rfl hl
  | head =>
      refine ⟨_, rfl, fun k => ?_, rfl, rfl⟩
      cases k <;> simp [Queue.deref]
  | next b =>
      refine ⟨_, rfl, fun k => ?_, rfl, rfl⟩
      cases k <;> simp [Queue.deref, Function.update_apply]

/-- A node put where `k` points takes its place there. -/
lemma Rep.insert (h : Rep q (xs ++ ys)) (hxs : Path q .head xs k) (ha : a ∉ xs ++ ys)
    (hderef : ∀ l, q'.deref l =
      if l = k then some a else if l = .next a then q.deref k else q.deref l)
    (hprev : ∀ c, q'.prev c =
      if c = a then k else if q.deref k = some c then .next a else q.prev c)
    (hlast : q'.last = if q.deref k = none then .next a else q.last) :
    Rep q' (xs ++ a :: ys) := by
  have hins : LinkedLists.Inserted q.heap q'.heap () k.addr a := by
    refine ⟨fun x => ?_, fun _ c => ?_⟩
    · obtain ⟨l, rfl⟩ := exists_addr x
      have hna : l.addr = .next () a ↔ l = .next a := addr_inj (k := .next a)
      simp only [heap_deref, hderef, addr_inj, hna]
    · change (q'.prev c).addr = _
      rw [hprev, heap_deref, apply_ite Link.addr, apply_ite Link.addr]
      simp only [true_and]
      rfl
  have hc := (rep_iff.mp h).insert (path_iff.mp hxs) ha hins
  rw [heap_deref] at hc
  rw [rep_iff, hlast, apply_ite Link.addr]
  exact hc

/-- The node `a` is gone when what it is reached through points past it. -/
lemma Rep.delete (h : Rep q (xs ++ a :: ys))
    (hderef : ∀ l, q'.deref l = if l = q.prev a then q.next a else q.deref l)
    (hprev : ∀ c, q'.prev c = if q.next a = some c then q.prev a else q.prev c)
    (hlast : q'.last = if q.next a = none then q.prev a else q.last) : Rep q' (xs ++ ys) := by
  have hrem : LinkedLists.Removed q.heap q'.heap () (q.heap.prev () a) a := by
    refine ⟨fun x => ?_, fun _ c => ?_⟩
    · obtain ⟨l, rfl⟩ := exists_addr x
      have hpa : l.addr = q.heap.prev () a ↔ l = q.prev a := addr_inj
      simp only [heap_deref, hderef, hpa]
      rfl
    · change (q'.prev c).addr = _
      rw [hprev, apply_ite Link.addr]
      simp only [true_and]
      rfl
  rw [rep_iff, hlast, apply_ite Link.addr]
  exact (rep_iff.mp h).remove hrem

/-- Inserting at the head. -/
lemma Rep.insertHead (h : Rep q as) (ha : a ∉ as) : Rep (q.insertHead a) (a :: as) := by
  have hrep : Rep q ([] ++ as) := h
  refine hrep.insert (k := .head) rfl ha (fun l => ?_) (fun c => ?_) ?_
  · cases hf : q.first <;> cases l <;>
      simp [Queue.insertHead, hf, Queue.deref, Function.update_apply]
  · cases hf : q.first <;>
      simp [Queue.insertHead, hf, Queue.deref, Function.update_apply, eq_comm]
  · cases hf : q.first <;> simp [Queue.insertHead, hf, Queue.deref]

/-- The links of a node off the list stay as they are. -/
lemma Rep.insertHead_frame (h : Rep q as) (hb : b ∉ as) (hba : b ≠ a) :
    (q.insertHead a).prev b = q.prev b ∧ (q.insertHead a).next b = q.next b := by
  have hfirst : ∀ c, q.first = some c → b ≠ c := by
    rintro c hc rfl
    rw [h.first_eq] at hc
    exact hb (List.mem_of_head? hc)
  cases hf : q.first with
  | none => simp [Queue.insertHead, hf, Function.update_of_ne hba]
  | some c =>
      simp [Queue.insertHead, hf, Function.update_of_ne hba, Function.update_of_ne (hfirst c hf)]

/-- Inserting at the tail. -/
lemma Rep.insertTail (h : Rep q as) (ha : a ∉ as) :
    ∃ q', q.insertTail a = some q' ∧ Rep q' (as ++ [a]) := by
  set q₁ : Queue α := { q with next := Function.update q.next a none,
                               prev := Function.update q.prev a q.last } with hq₁
  obtain ⟨q₂, hq₂, hderef, hprev, -⟩ := exists_store (q := q₁) h.path.ne_null (some a)
  refine ⟨{ q₂ with last := .next a }, by simp only [Queue.insertTail, ← hq₁, hq₂, Option.map_some],
    ?_⟩
  have hrep : Rep q (as ++ []) := by rwa [List.append_nil]
  refine hrep.insert h.path (by simpa using ha) (fun l => ?_) (fun c => ?_) ?_
  · change q₂.deref l = _
    rw [hderef, h.stop]
    congr 1
    cases l <;> simp [hq₁, Queue.deref, Function.update_apply]
  · change q₂.prev c = _
    simp [hprev, hq₁, h.stop, Function.update_apply]
  · rw [if_pos h.stop]

/-- The fields after a removal: the node after `a`, or the head if there is none, takes over the
address `a` was reached through, and that address takes over `a`'s next-pointer. -/
lemma remove_fields (hk : q.prev a ≠ .null) : ∃ q', q.remove a = some q' ∧
    (∀ l, q'.deref l = if l = q.prev a then q.next a else q.deref l) ∧
    (∀ c, q'.prev c = if q.next a = some c then q.prev a else q.prev c) ∧
    q'.last = if q.next a = none then q.prev a else q.last := by
  cases hn : q.next a with
  | none =>
      obtain ⟨q', hq', hd, hp, hl⟩ := exists_store (q := { q with last := q.prev a }) hk none
      refine ⟨q', by simp only [Queue.remove, hn, hq'], fun l => ?_, fun c => ?_, ?_⟩
      · rw [hd]
        cases l <;> rfl
      · simp [hp]
      · simp [hl]
  | some b =>
      obtain ⟨q', hq', hd, hp, hl⟩ :=
        exists_store (q := { q with prev := Function.update q.prev b (q.prev a) }) hk (some b)
      have hpa : Function.update q.prev b (q.prev a) a = q.prev a := by
        rw [Function.update_apply, ite_self]
      refine ⟨q', by simp only [Queue.remove, hn, hpa, hq'], fun l => ?_, fun c => ?_, ?_⟩
      · rw [hd]
        cases l <;> rfl
      · simp [hp, Function.update_apply, eq_comm]
      · simp [hl]

/-- Removing a node of the list. -/
lemma Rep.remove (h : Rep q as) (ha : a ∈ as) :
    ∃ q', q.remove a = some q' ∧ Rep q' (as.erase a) := by
  obtain ⟨xs, ys, -, rfl, herase⟩ := List.exists_erase_eq ha
  have hk : q.prev a ≠ .null := by
    have hon := ((rep_iff.mp h).path.prev_onPath ha).1
    exact fun hc => LinkedLists.onPath_ne_null hon (congrArg Link.addr hc)
  obtain ⟨q', hq', hderef, hprev, hlast⟩ := remove_fields hk
  exact ⟨q', hq', herase ▸ h.delete hderef hprev hlast⟩

end

end TailQueue
