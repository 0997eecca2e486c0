import MosRv.Lib.LinkedLists

/-!
# Lists and tail queues (`include/queue.h`)

The macros, on a memory with any number of heads, nodes and link fields.  A `list` head is one of
`LIST_HEAD`, which has no pointer to its end; a `tailq` head is one of `TAILQ_HEAD`.  A macro that
stores through the back address of a node has no result where that address is null.

An `Op` is one use of a macro on a list, `Op.exec` runs it, and `Op.apply` is what it is meant to
do to the sequences.  `Op.Proper` is the way the macros are to be used: a node that is put in is on
none of the lists, and a node that is named as a place or taken out is on the list.
-/

namespace MosRv

open LinkedLists

namespace Queue

variable {H F α : Type} [DecidableEq H] [DecidableEq F] [DecidableEq α]

/-! ## The macros -/

/-- `LIST_INIT`. -/
def listInit (σ : Heap H F α) (head : H) : Heap H F α := σ.setFirst head none

/-- `LIST_INSERT_AFTER`. -/
def listInsertAfter (σ : Heap H F α) (listelm elm : α) (field : F) : Heap H F α :=
  let σ := σ.setNext field elm (σ.next field listelm)
  let σ := match σ.next field listelm with
    | some b => σ.setPrev field b (.next field elm)
    | none => σ
  let σ := σ.setNext field listelm (some elm)
  σ.setPrev field elm (.next field listelm)

/-- `LIST_INSERT_BEFORE`. -/
def listInsertBefore (σ : Heap H F α) (listelm elm : α) (field : F) : Option (Heap H F α) :=
  let σ := σ.setPrev field elm (σ.prev field listelm)
  let σ := σ.setNext field elm (some listelm)
  (σ.store (σ.prev field listelm) (some elm)).map fun σ => σ.setPrev field listelm (.next field elm)

/-- `LIST_INSERT_HEAD`. -/
def listInsertHead (σ : Heap H F α) (head : H) (elm : α) (field : F) : Heap H F α :=
  let σ := σ.setNext field elm (σ.first head)
  let σ := match σ.first head with
    | some b => σ.setPrev field b (.next field elm)
    | none => σ
  let σ := σ.setFirst head (some elm)
  σ.setPrev field elm (.first head)

/-- `LIST_REMOVE`. -/
def listRemove (σ : Heap H F α) (elm : α) (field : F) : Option (Heap H F α) :=
  let σ := match σ.next field elm with
    | some b => σ.setPrev field b (σ.prev field elm)
    | none => σ
  σ.store (σ.prev field elm) (σ.next field elm)

/-- `TAILQ_INIT`. -/
def tailqInit (σ : Heap H F α) (head : H) : Heap H F α :=
  (σ.setFirst head none).setLast head (.first head)

/-- `TAILQ_INSERT_HEAD`. -/
def tailqInsertHead (σ : Heap H F α) (head : H) (elm : α) (field : F) : Heap H F α :=
  let σ := σ.setNext field elm (σ.first head)
  let σ := match σ.first head with
    | some b => σ.setPrev field b (.next field elm)
    | none => σ.setLast head (.next field elm)
  let σ := σ.setFirst head (some elm)
  σ.setPrev field elm (.first head)

/-- `TAILQ_INSERT_TAIL`. -/
def tailqInsertTail (σ : Heap H F α) (head : H) (elm : α) (field : F) : Option (Heap H F α) :=
  let σ := σ.setNext field elm none
  let σ := σ.setPrev field elm (σ.last head)
  (σ.store (σ.last head) (some elm)).map fun σ => σ.setLast head (.next field elm)

/-- `TAILQ_REMOVE`. -/
def tailqRemove (σ : Heap H F α) (head : H) (elm : α) (field : F) : Option (Heap H F α) :=
  let σ := match σ.next field elm with
    | some b => σ.setPrev field b (σ.prev field elm)
    | none => σ.setLast head (σ.prev field elm)
  σ.store (σ.prev field elm) (σ.next field elm)

section Effects

variable {σ : Heap H F α} {h : H} {f : F} {a b : α}

lemma inserted_listInsertHead (σ : Heap H F α) (h : H) (a : α) (f : F) :
    Inserted σ (listInsertHead σ h a f) f (.first h) a := by
  cases hf : σ.first h with
  | none =>
      refine ⟨fun l => ?_, fun g c => ?_⟩
      · simp [listInsertHead, hf, Heap.deref_setFirst, Heap.deref_setNext]
      · simp [listInsertHead, hf, Heap.prev_setPrev]
  | some b =>
      refine ⟨fun l => ?_, fun g c => ?_⟩
      · simp [listInsertHead, hf, Heap.deref_setFirst, Heap.deref_setNext]
      · simp [listInsertHead, hf, Heap.prev_setPrev, @eq_comm α b]

lemma last_listInsertHead (σ : Heap H F α) (h : H) (a : α) (f : F) :
    (listInsertHead σ h a f).last = σ.last := by
  cases hf : σ.first h <;> simp [listInsertHead, hf]

lemma inserted_listInsertAfter (hab : a ≠ b) :
    Inserted σ (listInsertAfter σ b a f) f (.next f b) a := by
  cases hn : σ.next f b with
  | none =>
      refine ⟨fun l => ?_, fun g c => ?_⟩
      · simp [listInsertAfter, hn, Heap.deref_setNext, Heap.next_setNext, hab.symm]
      · simp [listInsertAfter, hn, Heap.prev_setPrev, Heap.next_setNext, hab.symm]
  | some d =>
      refine ⟨fun l => ?_, fun g c => ?_⟩
      · simp [listInsertAfter, hn, Heap.deref_setNext, Heap.next_setNext, hab.symm]
      · simp [listInsertAfter, hn, Heap.prev_setPrev, Heap.next_setNext, hab.symm, @eq_comm α d]

omit [DecidableEq H] in
lemma last_listInsertAfter : (listInsertAfter σ b a f).last = σ.last := by
  cases hn : (σ.setNext f a (σ.next f b)).next f b <;> simp [listInsertAfter, hn]

lemma exists_listInsertBefore (hk : σ.prev f b ≠ .null) (hd : σ.deref (σ.prev f b) = some b)
    (hab : a ≠ b) : ∃ σ', listInsertBefore σ b a f = some σ' ∧
      Inserted σ σ' f (σ.prev f b) a ∧ σ'.last = σ.last := by
  set σ₁ := (σ.setPrev f a (σ.prev f b)).setNext f a (some b) with hσ₁
  have hprev : σ₁.prev f b = σ.prev f b := by simp [hσ₁, Heap.prev_setPrev, hab.symm]
  obtain ⟨σ₂, hstore, hderef, hp, hl⟩ := Heap.exists_store (σ := σ₁) (hprev ▸ hk) (some a)
  refine ⟨σ₂.setPrev f b (.next f a), ?_, ⟨fun l => ?_, fun g c => ?_⟩, ?_⟩
  · rw [listInsertBefore, ← hσ₁, hstore, Option.map_some]
  · rw [Heap.deref_setPrev, hderef, hprev, hσ₁, Heap.deref_setNext, Heap.deref_setPrev, hd]
  · rw [Heap.prev_setPrev, hp, hσ₁, Heap.prev_setNext, Heap.prev_setPrev, hd]
    by_cases hcb : g = f ∧ c = b
    · obtain ⟨rfl, rfl⟩ := hcb
      rw [if_pos ⟨rfl, rfl⟩, if_neg (fun heq => hab heq.2.symm), if_pos ⟨rfl, rfl⟩]
    · have hbc : ¬ (g = f ∧ some b = some c) := fun heq => hcb ⟨heq.1, (Option.some.inj heq.2).symm⟩
      rw [if_neg hcb, if_neg hbc]
  · rw [Heap.last_setPrev, hl, hσ₁, Heap.last_setNext, Heap.last_setPrev]

lemma exists_tailqInsertTail (hk : σ.last h ≠ .null) (hd : σ.deref (σ.last h) = none) :
    ∃ σ', tailqInsertTail σ h a f = some σ' ∧ Inserted σ σ' f (σ.last h) a ∧
      ∀ h', σ'.last h' = if h' = h then .next f a else σ.last h' := by
  set σ₁ := (σ.setNext f a none).setPrev f a (σ.last h) with hσ₁
  have hlast : σ₁.last = σ.last := by rw [hσ₁, Heap.last_setPrev, Heap.last_setNext]
  obtain ⟨σ₂, hstore, hderef, hp, hl⟩ := Heap.exists_store (σ := σ₁) (hlast ▸ hk) (some a)
  refine ⟨σ₂.setLast h (.next f a), ?_, ⟨fun l => ?_, fun g c => ?_⟩, fun h' => ?_⟩
  · rw [tailqInsertTail, Heap.last_setNext, ← hσ₁, hlast, hstore, Option.map_some]
  · rw [Heap.deref_setLast, hderef, hσ₁, Heap.deref_setPrev, Heap.deref_setNext, hd]
  · rw [Heap.prev_setLast, hp, hσ₁, Heap.prev_setPrev, Heap.prev_setNext, hd]
    simp
  · rw [Heap.last_setLast, hl, hlast]

lemma inserted_tailqInsertHead (σ : Heap H F α) (h : H) (a : α) (f : F) :
    Inserted σ (tailqInsertHead σ h a f) f (.first h) a := by
  cases hf : σ.first h with
  | none =>
      refine ⟨fun l => ?_, fun g c => ?_⟩
      · simp [tailqInsertHead, hf, Heap.deref_setFirst, Heap.deref_setNext]
      · simp [tailqInsertHead, hf, Heap.prev_setPrev]
  | some b =>
      refine ⟨fun l => ?_, fun g c => ?_⟩
      · simp [tailqInsertHead, hf, Heap.deref_setFirst, Heap.deref_setNext]
      · simp [tailqInsertHead, hf, Heap.prev_setPrev, @eq_comm α b]

lemma last_tailqInsertHead (σ : Heap H F α) (h : H) (a : α) (f : F) (h' : H) :
    (tailqInsertHead σ h a f).last h' =
      if h' = h ∧ σ.first h = none then .next f a else σ.last h' := by
  cases hf : σ.first h <;> simp [tailqInsertHead, hf, Heap.last_setLast]

/-- The store that ends a removal. -/
lemma exists_removed (σ₁ : Heap H F α) (hk : σ.prev f a ≠ .null)
    (hderef : ∀ l, σ₁.deref l = σ.deref l)
    (hprev : ∀ g b, σ₁.prev g b =
      if g = f ∧ σ.next f a = some b then σ.prev f a else σ.prev g b) :
    ∃ σ', σ₁.store (σ₁.prev f a) (σ₁.next f a) = some σ' ∧ Removed σ σ' f (σ.prev f a) a ∧
      σ'.last = σ₁.last := by
  have hpa : σ₁.prev f a = σ.prev f a := by rw [hprev, ite_self]
  have hna : σ₁.next f a = σ.next f a := hderef (.next f a)
  obtain ⟨σ', hstore, hd, hp, hl⟩ := Heap.exists_store (σ := σ₁) (hpa ▸ hk) (σ.next f a)
  refine ⟨σ', hna ▸ hstore, ⟨fun l => ?_, fun g b => ?_⟩, hl⟩
  · rw [hd, hpa, hderef]
  · rw [hp, hprev]

lemma exists_listRemove (hk : σ.prev f a ≠ .null) : ∃ σ', listRemove σ a f = some σ' ∧
    Removed σ σ' f (σ.prev f a) a ∧ σ'.last = σ.last := by
  cases hn : σ.next f a with
  | none =>
      obtain ⟨σ', hstore, hrem, hl⟩ :=
        exists_removed σ hk (fun _ => rfl) (by simp [hn])
      exact ⟨σ', by simpa only [listRemove, hn] using hstore, hrem, hl⟩
  | some b =>
      obtain ⟨σ', hstore, hrem, hl⟩ := exists_removed (σ.setPrev f b (σ.prev f a)) hk
        (fun _ => Heap.deref_setPrev) (by simp [hn, Heap.prev_setPrev, eq_comm])
      exact ⟨σ', by simpa only [listRemove, hn] using hstore, hrem, hl⟩

lemma exists_tailqRemove (hk : σ.prev f a ≠ .null) : ∃ σ', tailqRemove σ h a f = some σ' ∧
    Removed σ σ' f (σ.prev f a) a ∧
      ∀ h', σ'.last h' = if h' = h ∧ σ.next f a = none then σ.prev f a else σ.last h' := by
  cases hn : σ.next f a with
  | none =>
      obtain ⟨σ', hstore, hrem, hl⟩ := exists_removed (σ.setLast h (σ.prev f a)) hk
        (fun _ => Heap.deref_setLast) (by simp [hn])
      refine ⟨σ', by simpa only [tailqRemove, hn] using hstore, hrem, fun h' => ?_⟩
      rw [hl, Heap.last_setLast]
      simp
  | some b =>
      obtain ⟨σ', hstore, hrem, hl⟩ := exists_removed (σ.setPrev f b (σ.prev f a)) hk
        (fun _ => Heap.deref_setPrev) (by simp [hn, Heap.prev_setPrev, eq_comm])
      refine ⟨σ', by simpa only [tailqRemove, hn] using hstore, hrem, fun h' => ?_⟩
      rw [hl, Heap.last_setPrev]
      simp

end Effects

/-! ## Lists and their sequences -/

/-- What is known of a head: the link field that its list goes through, and whether it is a
`TAILQ_HEAD`. -/
structure Layout (H F : Type) where
  field : H → F
  tailq : H → Bool

/-- One use of a macro on the list at a head.  The macros that do not take the head are given it
to say which list the node is on. -/
inductive Op (H α : Type)
  | listInsertHead (head : H) (elm : α)
  | listInsertAfter (head : H) (listelm elm : α)
  | listInsertBefore (head : H) (listelm elm : α)
  | listRemove (head : H) (elm : α)
  | tailqInsertHead (head : H) (elm : α)
  | tailqInsertTail (head : H) (elm : α)
  | tailqRemove (head : H) (elm : α)

namespace Op

/-- The list that is worked on. -/
def head : Op H α → H
  | .listInsertHead h _ | .listInsertAfter h _ _ | .listInsertBefore h _ _ | .listRemove h _
  | .tailqInsertHead h _ | .tailqInsertTail h _ | .tailqRemove h _ => h

def isTailq : Op H α → Bool
  | .listInsertHead .. | .listInsertAfter .. | .listInsertBefore .. | .listRemove .. => false
  | .tailqInsertHead .. | .tailqInsertTail .. | .tailqRemove .. => true

/-- The node that is put in. -/
def inserted : Op H α → Option α
  | .listInsertHead _ a | .listInsertAfter _ _ a | .listInsertBefore _ _ a
  | .tailqInsertHead _ a | .tailqInsertTail _ a => some a
  | .listRemove .. | .tailqRemove .. => none

/-- The node that is taken out, or next to which one is put in. -/
def named : Op H α → Option α
  | .listInsertAfter _ b _ | .listInsertBefore _ b _ | .listRemove _ b | .tailqRemove _ b => some b
  | .listInsertHead .. | .tailqInsertHead .. | .tailqInsertTail .. => none

/-- The macro. -/
def exec (L : Layout H F) (σ : Heap H F α) : Op H α → Option (Heap H F α)
  | .listInsertHead h a => some (Queue.listInsertHead σ h a (L.field h))
  | .listInsertAfter h b a => some (Queue.listInsertAfter σ b a (L.field h))
  | .listInsertBefore h b a => Queue.listInsertBefore σ b a (L.field h)
  | .listRemove h a => Queue.listRemove σ a (L.field h)
  | .tailqInsertHead h a => some (Queue.tailqInsertHead σ h a (L.field h))
  | .tailqInsertTail h a => Queue.tailqInsertTail σ h a (L.field h)
  | .tailqRemove h a => Queue.tailqRemove σ h a (L.field h)

/-- What becomes of the sequence. -/
def edit (as : List α) : Op H α → List α
  | .listInsertHead _ a | .tailqInsertHead _ a => a :: as
  | .listInsertAfter _ b a => as.insertIdx (as.idxOf b + 1) a
  | .listInsertBefore _ b a => as.insertIdx (as.idxOf b) a
  | .tailqInsertTail _ a => as ++ [a]
  | .listRemove _ a | .tailqRemove _ a => as.erase a

/-- What becomes of all sequences: only one of them is worked on. -/
def apply (op : Op H α) (S : H → List α) : H → List α :=
  Function.update S op.head (op.edit (S op.head))

/-- The macro is used as it is meant to be, on the lists `T`. -/
structure Proper (L : Layout H F) (T : Set H) (S : H → List α) (op : Op H α) : Prop where
  head_mem : op.head ∈ T
  kind : L.tailq op.head = op.isTailq
  /-- A node that is put in is on none of the lists that go through the same link field. -/
  inserted : ∀ a, op.inserted = some a → ∀ h ∈ T, L.field h = L.field op.head → a ∉ S h
  named : ∀ b, op.named = some b → b ∈ S op.head

/-- The nodes whose links the macro may write. -/
def touched (op : Op H α) (as : List α) : List α := op.inserted.toList ++ as

/-- A sequence of macros, one after the other. -/
def run (L : Layout H F) (σ : Heap H F α) (ops : List (Op H α)) : Option (Heap H F α) :=
  ops.foldlM (fun σ op => op.exec L σ) σ

/-- The sequences after it. -/
def sequences (S : H → List α) (ops : List (Op H α)) : H → List α :=
  ops.foldl (fun S op => op.apply S) S

end Op

/-- The pointers of the list at `h` are the sequence `as`, and the last-pointer of a tail queue is
the address of the final null pointer. -/
def Rep (L : Layout H F) (σ : Heap H F α) (h : H) (as : List α) : Prop :=
  ∃ e, Chain σ (L.field h) h as e ∧ (L.tailq h = true → σ.last h = e)

/-- What a macro on the list at `h` leaves behind: the sequence `as`, and everything as it was but
for the links of the nodes `A`. -/
structure Leaves (L : Layout H F) (σ σ' : Heap H F α) (h : H) (A as : List α) : Prop where
  rep : Rep L σ' h as
  within : Within σ σ' (L.field h) h A
  last : ∀ h', h' ≠ h → σ'.last h' = σ.last h'

section Steps

variable {L : Layout H F} {σ σ' : Heap H F α} {h : H} {xs ys as : List α} {a b : α}
  {k : Addr H F α}

omit [DecidableEq H] [DecidableEq F] [DecidableEq α] in
lemma onPath_append (hk : OnPath (L.field h) (.first h) xs k) (ys : List α) :
    OnPath (L.field h) (.first h) (xs ++ ys) k := by
  obtain rfl | ⟨b, hb, rfl⟩ := hk
  · exact .inl rfl
  · exact .inr ⟨b, by simp [hb], rfl⟩

omit [DecidableEq H] [DecidableEq F] [DecidableEq α] in
lemma Rep.chain (hr : Rep L σ h as) :
    ∃ e, Chain σ (L.field h) h as e ∧ (L.tailq h = true → σ.last h = e) := hr

lemma Rep.insert (xs ys : List α) (hr : Rep L σ h (xs ++ ys))
    (hxs : Path σ (L.field h) (.first h) xs k)
    (ha : a ∉ xs ++ ys) (hins : Inserted σ σ' (L.field h) k a)
    (hlast : ∀ h', h' ≠ h → σ'.last h' = σ.last h')
    (hend : L.tailq h = true →
      σ'.last h = if σ.deref k = none then .next (L.field h) a else σ.last h) :
    Leaves L σ σ' h (a :: (xs ++ ys)) (xs ++ a :: ys) := by
  obtain ⟨e, hc, he⟩ := hr.chain
  refine ⟨⟨_, hc.insert hxs ha hins, fun ht => ?_⟩, ?_, hlast⟩
  · rw [hend ht, he ht]
  · refine hins.within (onPath_append hxs.onPath ys) fun b hb => ?_
    obtain ⟨k', hxs', hys⟩ := Path.append_iff.mp hc.path
    obtain rfl : k = k' := hxs.end_unique hxs'
    cases ys with
    | nil =>
        rw [show k = e from hys, hc.stop] at hb
        simp at hb
    | cons c zs =>
        rw [hys.1, Option.some.injEq] at hb
        simp [hb]

lemma Rep.remove (hr : Rep L σ h (xs ++ a :: ys))
    (hrem : Removed σ σ' (L.field h) (σ.prev (L.field h) a) a)
    (hlast : ∀ h', h' ≠ h → σ'.last h' = σ.last h')
    (hend : L.tailq h = true → σ'.last h =
      if σ.next (L.field h) a = none then σ.prev (L.field h) a else σ.last h) :
    Leaves L σ σ' h (xs ++ a :: ys) (xs ++ ys) := by
  obtain ⟨e, hc, he⟩ := hr.chain
  refine ⟨⟨_, hc.remove hrem, fun ht => ?_⟩, ?_, hlast⟩
  · rw [hend ht, he ht]
  · refine hrem.within (hc.path.prev_onPath (by simp)).1 fun b hb => ?_
    obtain ⟨k, hxs, hd, hp, hys⟩ := Path.append_iff.mp hc.path
    cases ys with
    | nil =>
        rw [← Heap.deref_next, show .next (L.field h) a = e from hys, hc.stop] at hb
        simp at hb
    | cons c zs =>
        rw [← Heap.deref_next, hys.1, Option.some.injEq] at hb
        simp [hb]

omit [DecidableEq H] [DecidableEq F] [DecidableEq α] in
lemma insertIdx_middle (xs ys : List α) (a : α) :
    (xs ++ ys).insertIdx xs.length a = xs ++ a :: ys := by
  induction xs with
  | nil => rw [List.nil_append, List.nil_append, List.length_nil, List.insertIdx_zero]
  | cons x xs ih =>
      rw [List.cons_append, List.length_cons, List.insertIdx_succ_cons, ih, List.cons_append]

omit [DecidableEq H] [DecidableEq F] in
lemma idxOf_middle (hb : b ∉ xs) : (xs ++ b :: ys).idxOf b = xs.length := by
  rw [List.idxOf_append_of_notMem hb, List.idxOf_cons_self, Nat.add_zero]

/-- A `LIST_HEAD` has no last-pointer to look after. -/
lemma Rep.listInsert (xs ys : List α) (hr : Rep L σ h (xs ++ ys)) (hl : L.tailq h = false)
    (hxs : Path σ (L.field h) (.first h) xs k) (ha : a ∉ xs ++ ys)
    (hins : Inserted σ σ' (L.field h) k a) (hlast : σ'.last = σ.last) :
    Leaves L σ σ' h (a :: (xs ++ ys)) (xs ++ a :: ys) :=
  hr.insert xs ys hxs ha hins (fun _ _ => by rw [hlast]) fun ht => by simp [hl] at ht

lemma Rep.listInsertHead (hr : Rep L σ h as) (hl : L.tailq h = false) (ha : a ∉ as) :
    Leaves L σ (Queue.listInsertHead σ h a (L.field h)) h (a :: as) (a :: as) :=
  Rep.listInsert [] as hr hl rfl ha (inserted_listInsertHead σ h a _) (last_listInsertHead σ h a _)

lemma Rep.listInsertAfter (hr : Rep L σ h as) (hl : L.tailq h = false) (ha : a ∉ as) (hb : b ∈ as) :
    Leaves L σ (Queue.listInsertAfter σ b a (L.field h)) h (a :: as)
      (as.insertIdx (as.idxOf b + 1) a) := by
  have hab : a ≠ b := fun hc => ha (hc ▸ hb)
  obtain ⟨xs, ys, rfl, hxb⟩ := List.eq_append_cons_of_mem hb
  obtain ⟨e, hc, -⟩ := hr.chain
  obtain ⟨k, hxs, hd, hp, -⟩ := Path.append_iff.mp hc.path
  have hpath : Path σ (L.field h) (.first h) (xs ++ [b]) (.next (L.field h) b) :=
    Path.append_iff.mpr ⟨k, hxs, hd, hp, rfl⟩
  have happend : xs ++ b :: ys = (xs ++ [b]) ++ ys := by
    rw [List.append_assoc, List.singleton_append]
  have hlen : xs.length + 1 = (xs ++ [b]).length := by
    rw [List.length_append, List.length_singleton]
  rw [idxOf_middle hxb, hlen, happend, insertIdx_middle]
  rw [happend] at hr ha
  exact hr.listInsert _ _ hl hpath ha (inserted_listInsertAfter hab) last_listInsertAfter

lemma Rep.listInsertBefore (hr : Rep L σ h as) (hl : L.tailq h = false) (ha : a ∉ as)
    (hb : b ∈ as) : ∃ σ', Queue.listInsertBefore σ b a (L.field h) = some σ' ∧
      Leaves L σ σ' h (a :: as) (as.insertIdx (as.idxOf b) a) := by
  have hab : a ≠ b := fun hc => ha (hc ▸ hb)
  obtain ⟨e, hc, -⟩ := hr.chain
  obtain ⟨hon, hderef⟩ := hc.path.prev_onPath hb
  obtain ⟨σ', hexec, hins, hlast⟩ := exists_listInsertBefore (onPath_ne_null hon) hderef hab
  obtain ⟨xs, ys, rfl, hxb⟩ := List.eq_append_cons_of_mem hb
  obtain ⟨k, hxs, -, hp, -⟩ := Path.append_iff.mp hc.path
  rw [idxOf_middle hxb, insertIdx_middle]
  exact ⟨σ', hexec, hr.listInsert _ _ hl (hp ▸ hxs) ha hins hlast⟩

lemma Rep.listRemove (hr : Rep L σ h as) (hl : L.tailq h = false) (ha : a ∈ as) :
    ∃ σ', Queue.listRemove σ a (L.field h) = some σ' ∧ Leaves L σ σ' h as (as.erase a) := by
  obtain ⟨e, hc, -⟩ := hr.chain
  obtain ⟨σ', hexec, hrem, hlast⟩ := exists_listRemove (onPath_ne_null (hc.path.prev_onPath ha).1)
  obtain ⟨xs, ys, -, rfl, herase⟩ := List.exists_erase_eq ha
  rw [herase]
  exact ⟨σ', hexec, hr.remove hrem (fun _ _ => by rw [hlast]) fun ht => by simp [hl] at ht⟩

lemma Rep.tailqInsertHead (hr : Rep L σ h as) (ha : a ∉ as) :
    Leaves L σ (Queue.tailqInsertHead σ h a (L.field h)) h (a :: as) (a :: as) := by
  have hlast := last_tailqInsertHead σ h a (L.field h)
  refine Rep.insert [] as hr rfl ha (inserted_tailqInsertHead σ h a _) (fun h' hne => ?_)
    fun _ => ?_
  · rw [hlast, if_neg fun heq => hne heq.1]
  · rw [hlast, Heap.deref_first]
    simp

lemma Rep.tailqInsertTail (hr : Rep L σ h as) (hl : L.tailq h = true) (ha : a ∉ as) :
    ∃ σ', Queue.tailqInsertTail σ h a (L.field h) = some σ' ∧
      Leaves L σ σ' h (a :: as) (as ++ [a]) := by
  obtain ⟨e, hc, he⟩ := hr.chain
  obtain rfl := he hl
  obtain ⟨σ', hexec, hins, hlast⟩ :=
    exists_tailqInsertTail (a := a) (f := L.field h) (onPath_ne_null hc.path.onPath) hc.stop
  rw [← List.append_nil as] at hr ha
  have hleaves := hr.insert as [] hc.path ha hins (fun h' hne => by rw [hlast, if_neg hne])
    fun _ => by rw [hlast, if_pos rfl, if_pos hc.stop]
  rw [List.append_nil] at hleaves
  exact ⟨σ', hexec, hleaves⟩

lemma Rep.tailqRemove (hr : Rep L σ h as) (ha : a ∈ as) :
    ∃ σ', Queue.tailqRemove σ h a (L.field h) = some σ' ∧ Leaves L σ σ' h as (as.erase a) := by
  obtain ⟨e, hc, -⟩ := hr.chain
  obtain ⟨σ', hexec, hrem, hlast⟩ :=
    exists_tailqRemove (h := h) (onPath_ne_null (hc.path.prev_onPath ha).1)
  obtain ⟨xs, ys, -, rfl, herase⟩ := List.exists_erase_eq ha
  rw [herase]
  refine ⟨σ', hexec, hr.remove hrem (fun h' hne => ?_) fun _ => ?_⟩
  · rw [hlast, if_neg fun heq => hne heq.1]
  · rw [hlast]
    simp

/-- **One macro does to the sequence what its name says.** -/
lemma Rep.exec {op : Op H α} (hr : Rep L σ op.head as) (hkind : L.tailq op.head = op.isTailq)
    (hins : ∀ a, op.inserted = some a → a ∉ as) (hnamed : ∀ b, op.named = some b → b ∈ as) :
    ∃ σ', op.exec L σ = some σ' ∧ Leaves L σ σ' op.head (op.touched as) (op.edit as) := by
  cases op with
  | listInsertHead h a => exact ⟨_, rfl, hr.listInsertHead hkind (hins a rfl)⟩
  | listInsertAfter h b a => exact ⟨_, rfl, hr.listInsertAfter hkind (hins a rfl) (hnamed b rfl)⟩
  | listInsertBefore h b a => exact hr.listInsertBefore hkind (hins a rfl) (hnamed b rfl)
  | listRemove h a => exact hr.listRemove hkind (hnamed a rfl)
  | tailqInsertHead h a => exact ⟨_, rfl, hr.tailqInsertHead (hins a rfl)⟩
  | tailqInsertTail h a => exact hr.tailqInsertTail hkind (hins a rfl)
  | tailqRemove h a => exact hr.tailqRemove (hnamed a rfl)

end Steps

/-! ## Runs -/

/-- The pointers of each of the lists `T` are its sequence. -/
def Represents (L : Layout H F) (T : Set H) (σ : Heap H F α) (S : H → List α) : Prop :=
  ∀ h ∈ T, Rep L σ h (S h)

/-- Every macro of a sequence is used as it is meant to be. -/
def ProperRun (L : Layout H F) (T : Set H) : (H → List α) → List (Op H α) → Prop
  | _, [] => True
  | S, op :: ops => op.Proper L T S ∧ ProperRun L T (op.apply S) ops

instance [Fintype H] (L : Layout H F) (S : H → List α) (op : Op H α) :
    Decidable (op.Proper L Set.univ S) :=
  decidable_of_iff (L.tailq op.head = op.isTailq ∧
      (∀ a ∈ op.inserted, ∀ h, L.field h = L.field op.head → a ∉ S h) ∧
      ∀ b ∈ op.named, b ∈ S op.head)
    ⟨fun h => ⟨trivial, h.1, fun a ha h' _ => h.2.1 a ha h', h.2.2⟩,
      fun h => ⟨h.kind, fun a ha h' => h.inserted a ha h' trivial, h.named⟩⟩

def decProperRun [Fintype H] (L : Layout H F) :
    ∀ (ops : List (Op H α)) (S : H → List α), Decidable (ProperRun L Set.univ S ops)
  | [], _ => isTrue trivial
  | op :: ops, S =>
      have := decProperRun L ops (op.apply S)
      inferInstanceAs (Decidable (op.Proper L Set.univ S ∧ ProperRun L Set.univ (op.apply S) ops))

instance [Fintype H] (L : Layout H F) (S : H → List α) (ops : List (Op H α)) :
    Decidable (ProperRun L Set.univ S ops) := decProperRun L ops S

/-- In the link field `f` the node `b` is always elsewhere: it is neither put in, nor on the list
that is worked on. -/
def Elsewhere (L : Layout H F) (f : F) (b : α) : (H → List α) → List (Op H α) → Prop
  | _, [] => True
  | S, op :: ops =>
      (L.field op.head = f → op.inserted ≠ some b ∧ b ∉ S op.head) ∧
        Elsewhere L f b (op.apply S) ops

section Runs

variable {L : Layout H F} {T : Set H} {σ σ' : Heap H F α} {S : H → List α} {op : Op H α}
  {ops : List (Op H α)} {h : H} {f : F} {b : α}

omit [DecidableEq H] [DecidableEq α] [DecidableEq F] in
lemma Op.mem_touched {as : List α} : b ∈ op.touched as ↔ op.inserted = some b ∨ b ∈ as := by
  rw [Op.touched, List.mem_append, Option.mem_toList]

omit [DecidableEq H] [DecidableEq α] [DecidableEq F] in
/-- The macro touches no node of another list. -/
lemma Represents.notMem_touched (hr : Represents L T σ S) (hp : op.Proper L T S) (hh : h ∈ T)
    (hne : h ≠ op.head) (hf : L.field h = L.field op.head) :
    ∀ b ∈ S h, b ∉ op.touched (S op.head) := by
  intro b hb hmem
  obtain ⟨e, hc, -⟩ := (hr h hh).chain
  obtain ⟨e', hc', -⟩ := (hr op.head hp.head_mem).chain
  rw [hf] at hc
  obtain hins | hmem := Op.mem_touched.mp hmem
  · exact hp.inserted b hins h hh hf hb
  · exact hc.disjoint hc' hne b hb hmem

omit [DecidableEq F] [DecidableEq α] in
/-- A head that is given an empty list leaves the other lists alone. -/
lemma Represents.init (hr : Represents L T σ S) (hrep : Rep L σ' h []) (hh : h ∉ T)
    (hw : Within σ σ' (L.field h) h []) (hlast : ∀ h', h' ≠ h → σ'.last h' = σ.last h') :
    Represents L (insert h T) σ' (Function.update S h []) := by
  rintro h' (rfl | hT)
  · rw [Function.update_self]
    exact hrep
  · have hne : h' ≠ h := fun heq => hh (heq ▸ hT)
    rw [Function.update_of_ne hne]
    obtain ⟨e, hc, he⟩ := (hr h' hT).chain
    exact ⟨e, hc.within hw hne (by simp), fun ht => (hlast h' hne).trans (he ht)⟩

omit [DecidableEq F] [DecidableEq α] in
lemma Represents.listInit (hr : Represents L T σ S) (hl : L.tailq h = false) (hh : h ∉ T) :
    Represents L (insert h T) (listInit σ h) (Function.update S h []) := by
  refine hr.init ⟨.first h, ⟨List.nodup_nil, rfl, ?_⟩, fun ht => by simp [hl] at ht⟩ hh ?_
    fun _ _ => rfl
  · exact Function.update_self _ _ _
  · exact ⟨fun h' hne => Function.update_of_ne hne _ _, fun _ _ _ => rfl, fun _ _ _ => rfl⟩

omit [DecidableEq F] [DecidableEq α] in
lemma Represents.tailqInit (hr : Represents L T σ S) (hh : h ∉ T) :
    Represents L (insert h T) (tailqInit σ h) (Function.update S h []) := by
  refine hr.init ⟨.first h, ⟨List.nodup_nil, rfl, ?_⟩, fun _ => ?_⟩ hh ?_ fun h' hne => ?_
  · rw [Queue.tailqInit, Heap.deref_setLast, Heap.deref_first]
    exact Function.update_self _ _ _
  · simp [Queue.tailqInit, Heap.last_setLast]
  · exact ⟨fun h' hne => Function.update_of_ne hne _ _, fun _ _ _ => rfl, fun _ _ _ => rfl⟩
  · simp [Queue.tailqInit, Heap.last_setLast, hne]

/-- **One macro.** -/
lemma Represents.step (hr : Represents L T σ S) (hp : op.Proper L T S) :
    ∃ σ', op.exec L σ = some σ' ∧ Represents L T σ' (op.apply S) ∧
      Leaves L σ σ' op.head (op.touched (S op.head)) (op.edit (S op.head)) := by
  obtain ⟨σ', hexec, hleaves⟩ := (hr op.head hp.head_mem).exec hp.kind
    (fun a ha => hp.inserted a ha op.head hp.head_mem rfl) hp.named
  refine ⟨σ', hexec, fun h hh => ?_, hleaves⟩
  rw [Op.apply]
  by_cases hne : h = op.head
  · subst hne
    rw [Function.update_self]
    exact hleaves.rep
  · rw [Function.update_of_ne hne]
    obtain ⟨e, hc, he⟩ := (hr h hh).chain
    refine ⟨e, hc.within hleaves.within hne fun hf => hr.notMem_touched hp hh hne hf, fun ht => ?_⟩
    rw [hleaves.last h hne, he ht]

/-- The nodes of a list that none of the macros works on are elsewhere. -/
lemma Represents.elsewhere (hr : Represents L T σ S) (hp : ProperRun L T S ops) (hh : h ∈ T)
    (hne : ∀ op ∈ ops, op.head ≠ h) (hb : b ∈ S h) : Elsewhere L (L.field h) b S ops := by
  induction ops generalizing σ S with
  | nil => trivial
  | cons op ops ih =>
      obtain ⟨hop, hops⟩ := hp
      have hneh : h ≠ op.head := (hne op (by simp)).symm
      obtain ⟨σ₁, -, hr₁, -⟩ := hr.step hop
      refine ⟨fun hf => ?_, ih hr₁ hops (fun op' hop' => hne op' (by simp [hop'])) ?_⟩
      · have hnot := hr.notMem_touched hop hh hneh hf.symm b hb
        rwa [Op.mem_touched, not_or] at hnot
      · rwa [Op.apply, Function.update_of_ne hneh]

/-- A node that is elsewhere keeps its links, and a head that none of the macros works on keeps its
pointers. -/
lemma Represents.run (hr : Represents L T σ S) (hp : ProperRun L T S ops) :
    ∃ σ', Op.run L σ ops = some σ' ∧ Represents L T σ' (Op.sequences S ops) ∧
      (∀ f b, Elsewhere L f b S ops → σ'.next f b = σ.next f b ∧ σ'.prev f b = σ.prev f b) ∧
      ∀ h, (∀ op ∈ ops, op.head ≠ h) → σ'.first h = σ.first h ∧ σ'.last h = σ.last h := by
  induction ops generalizing σ S with
  | nil => exact ⟨σ, rfl, hr, fun _ _ _ => ⟨rfl, rfl⟩, fun _ _ => ⟨rfl, rfl⟩⟩
  | cons op ops ih =>
      obtain ⟨hop, hops⟩ := hp
      obtain ⟨σ₁, hexec, hr₁, hleaves⟩ := hr.step hop
      obtain ⟨σ', hrun, hr', hlinks, hheads⟩ := ih hr₁ hops
      refine ⟨σ', ?_, hr', fun f b hb => ?_, fun h hne => ?_⟩
      · rw [Op.run, List.foldlM_cons, hexec]
        exact hrun
      · obtain ⟨hb₁, hb⟩ := hb
        have hnot : f = L.field op.head → b ∉ op.touched (S op.head) := by
          intro hf
          rw [Op.mem_touched, not_or]
          exact hb₁ hf.symm
        obtain ⟨hnext, hprev⟩ := hlinks f b hb
        exact ⟨hnext.trans (hleaves.within.next f b hnot),
          hprev.trans (hleaves.within.prev f b hnot)⟩
      · have hne₁ : h ≠ op.head := (hne op (by simp)).symm
        obtain ⟨hfirst, hlast⟩ := hheads h fun op' hop' => hne op' (by simp [hop'])
        exact ⟨hfirst.trans (hleaves.within.first h hne₁), hlast.trans (hleaves.last h hne₁)⟩

/-- **The pointer lists refine sequences.**  In a memory where the pointers of the lists `T` are
sequences, every sequence of macros that are used as they are meant to be goes through.  The
pointers are then the sequences that the operations give: the list that is reached from a head along
the next-pointers is the sequence, every node on it has the address of the pointer to it, and the
last-pointer of a tail queue is the address of the final null pointer.  A node that is never on the
list that is worked on keeps its links, and so do the nodes and the head of a list that is not
worked on at all. -/
theorem queue_refines_sequences (L : Layout H F) {T : Set H} {σ : Heap H F α} {S : H → List α}
    (hr : Represents L T σ S) {ops : List (Op H α)} (hp : ProperRun L T S ops) :
    ∃ σ', Op.run L σ ops = some σ' ∧ Represents L T σ' (Op.sequences S ops) ∧
      (∀ h ∈ T, ∀ n, (Op.sequences S ops h).length ≤ n →
        σ'.nodes (L.field h) n (σ'.first h) = Op.sequences S ops h) ∧
      (∀ f b, Elsewhere L f b S ops → σ'.next f b = σ.next f b ∧ σ'.prev f b = σ.prev f b) ∧
      ∀ h, (∀ op ∈ ops, op.head ≠ h) → σ'.first h = σ.first h ∧ σ'.last h = σ.last h ∧
        (h ∈ T → ∀ b ∈ S h, σ'.next (L.field h) b = σ.next (L.field h) b ∧
          σ'.prev (L.field h) b = σ.prev (L.field h) b) := by
  obtain ⟨σ', hrun, hr', hlinks, hheads⟩ := hr.run hp
  refine ⟨σ', hrun, hr', fun h hh n hn => ?_, hlinks, fun h hne => ?_⟩
  · obtain ⟨e, hc, -⟩ := (hr' h hh).chain
    exact hc.nodes_eq hn
  · obtain ⟨hfirst, hlast⟩ := hheads h hne
    exact ⟨hfirst, hlast, fun hh b hb => hlinks _ b (hr.elsewhere hp hh hne hb)⟩

end Runs

/-! ## The kernel's lists -/

/-- The heads of the kernel's lists. -/
inductive KernelList
  | pageFreeList | envFreeList | envSchedList
  deriving DecidableEq, Repr

instance : Fintype KernelList where
  elems := {.pageFreeList, .envFreeList, .envSchedList}
  complete h := by cases h <;> decide

/-- The link fields of `struct Page` and `struct Env`. -/
inductive KernelLink
  | ppLink | envLink | envSchedLink
  deriving DecidableEq, Repr

/-- A node is an index of `pages[]` or of `envs[]`, whichever the link field says. -/
def kernelLists : Layout KernelList KernelLink where
  field
    | .pageFreeList => .ppLink
    | .envFreeList => .envLink
    | .envSchedList => .envSchedLink
  tailq
    | .pageFreeList | .envFreeList => false
    | .envSchedList => true

abbrev KernelHeap := Heap KernelList KernelLink ℕ

/-- What `page_init` and `env_init` begin with. -/
def initLists (σ : KernelHeap) : KernelHeap :=
  tailqInit (listInit (listInit σ .pageFreeList) .envFreeList) .envSchedList

lemma represents_initLists (σ : KernelHeap) :
    Represents kernelLists Set.univ (initLists σ) fun _ => [] := by
  have hnone : Represents kernelLists ∅ σ fun _ => [] := fun _ hh => hh.elim
  have hinit := ((hnone.listInit (h := .pageFreeList) rfl (by simp)).listInit
    (h := .envFreeList) rfl (by simp)).tailqInit (h := .envSchedList) (by simp)
  rw [Function.update_eq_self, Function.update_eq_self, Function.update_eq_self] at hinit
  exact fun h _ => hinit h (by cases h <;> simp)

/-- Zeroed memory. -/
def zeroLinks : KernelHeap where
  first _ := none
  last _ := .null
  next _ _ := none
  prev _ _ := .null

/-- `env_init` for two envs, which are then taken, scheduled and, the first of them, given back;
and a list of pages with one put in after the first and one before. -/
def kernelOps : List (Op KernelList ℕ) :=
  [.listInsertHead .envFreeList 1, .listInsertHead .envFreeList 0, .listRemove .envFreeList 0,
    .tailqInsertHead .envSchedList 0, .listRemove .envFreeList 1, .tailqInsertTail .envSchedList 1,
    .listInsertHead .envFreeList 0, .tailqRemove .envSchedList 0, .listInsertHead .pageFreeList 0,
    .listInsertAfter .pageFreeList 0 1, .listInsertBefore .pageFreeList 0 2]

theorem queue_refines_sequences_kernel : ∃ σ',
    Op.run kernelLists (initLists zeroLinks) kernelOps = some σ' ∧
      σ'.nodes .ppLink 3 (σ'.first .pageFreeList) = [2, 0, 1] ∧
      σ'.nodes .envLink 1 (σ'.first .envFreeList) = [0] ∧
      σ'.nodes .envSchedLink 1 (σ'.first .envSchedList) = [1] := by
  have hproper : ProperRun kernelLists Set.univ (fun _ => []) kernelOps := by decide
  obtain ⟨σ', hrun, -, hnodes, -, -⟩ :=
    queue_refines_sequences kernelLists (represents_initLists zeroLinks) hproper
  exact ⟨σ', hrun, hnodes .pageFreeList trivial 3 (by decide),
    hnodes .envFreeList trivial 1 (by decide), hnodes .envSchedList trivial 1 (by decide)⟩

/-- The test of `LIST_INSERT_AFTER` in `tests/lab2_1`: fifteen pages put in at the head, and two
more, `15` and `16`, after page 4. -/
example :
    (Op.run kernelLists (initLists zeroLinks)
      (([14, 13, 12, 11, 10, 9, 8, 7, 6, 5, 0, 1, 2, 3, 4].map (.listInsertHead .pageFreeList ·)) ++
        [.listInsertAfter .pageFreeList 4 15, .listInsertAfter .pageFreeList 4 16])).map
      (fun σ => σ.nodes .ppLink 20 (σ.first .pageFreeList)) =
    some [4, 16, 15, 3, 2, 1, 0, 5, 6, 7, 8, 9, 10, 11, 12, 13, 14] := by
  decide

end Queue

end MosRv
