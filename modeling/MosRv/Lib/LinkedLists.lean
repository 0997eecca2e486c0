import Mathlib.Tactic

/-!
# Doubly linked lists made of pointers

A memory with any number of lists in it.  A node keeps, in each of its link fields, a pointer to
the next node and the *address of the pointer that points at it*, which is the next-pointer of the
node before or the first-pointer of a head.  A head may also keep the address of the final null
pointer.  `Addr` are these addresses; a store through a null address has no result (`none`).

`Chain σ f h as e` says that the pointers from the head `h` through the link field `f` are the
sequence `as`, and that `e` is the address of the final null pointer.  There are only two things
to do to a chain: to let an address `k` on it point to a new node (`Inserted`), and to let the
address that points to a node point past it (`Removed`).  `Chain.insert` and `Chain.remove` say
what becomes of the sequence, `Within` what these changes leave alone.

Two chains through one link field never share a node (`Chain.disjoint`): a node knows the address
that it is reached through.
-/

namespace LinkedLists

variable {H F α : Type}

/-- The address of a pointer to a node. -/
inductive Addr (H F α : Type)
  | null
  /-- The pointer to the first node, in a head. -/
  | first (h : H)
  /-- The next-pointer in a link field of a node. -/
  | next (f : F) (a : α)
  deriving DecidableEq, Repr

/-- The heads of all lists, and the link fields of all nodes. -/
structure Heap (H F α : Type) where
  first : H → Option α
  last : H → Addr H F α
  next : F → α → Option α
  prev : F → α → Addr H F α

namespace Heap

variable (σ : Heap H F α)

/-- The pointer stored at an address. -/
def deref : Addr H F α → Option α
  | .null => none
  | .first h => σ.first h
  | .next f a => σ.next f a

/-- The nodes that come from a pointer on, `n` of them at most. -/
def nodes (f : F) : ℕ → Option α → List α
  | 0, _ => []
  | _, none => []
  | n + 1, some a => a :: nodes f n (σ.next f a)

variable {σ}
variable {h : H} {f : F} {a : α} {v : Option α} {k l : Addr H F α}

@[simp] lemma deref_first : σ.deref (.first h) = σ.first h := rfl
@[simp] lemma deref_next : σ.deref (.next f a) = σ.next f a := rfl

section Heads

variable [DecidableEq H]

def setFirst (σ : Heap H F α) (h : H) (v : Option α) : Heap H F α :=
  { σ with first := Function.update σ.first h v }

def setLast (σ : Heap H F α) (h : H) (l : Addr H F α) : Heap H F α :=
  { σ with last := Function.update σ.last h l }

lemma deref_setFirst [DecidableEq F] [DecidableEq α] :
    (σ.setFirst h v).deref l = if l = .first h then v else σ.deref l := by
  cases l <;> simp [setFirst, deref, Function.update_apply]

@[simp] lemma deref_setLast : (σ.setLast h k).deref l = σ.deref l := by cases l <;> rfl
@[simp] lemma prev_setFirst : (σ.setFirst h v).prev = σ.prev := rfl
@[simp] lemma prev_setLast : (σ.setLast h k).prev = σ.prev := rfl
@[simp] lemma last_setFirst : (σ.setFirst h v).last = σ.last := rfl

lemma last_setLast (h' : H) : (σ.setLast h k).last h' = if h' = h then k else σ.last h' := by
  simp [setLast, Function.update_apply]

end Heads

section Nodes

variable [DecidableEq F] [DecidableEq α]

def setNext (σ : Heap H F α) (f : F) (a : α) (v : Option α) : Heap H F α :=
  { σ with next := fun g b => if g = f ∧ b = a then v else σ.next g b }

def setPrev (σ : Heap H F α) (f : F) (a : α) (l : Addr H F α) : Heap H F α :=
  { σ with prev := fun g b => if g = f ∧ b = a then l else σ.prev g b }

lemma deref_setNext [DecidableEq H] :
    (σ.setNext f a v).deref l = if l = .next f a then v else σ.deref l := by
  cases l <;> simp [setNext, deref]

@[simp] lemma deref_setPrev : (σ.setPrev f a k).deref l = σ.deref l := by cases l <;> rfl
@[simp] lemma prev_setNext : (σ.setNext f a v).prev = σ.prev := rfl
@[simp] lemma last_setNext : (σ.setNext f a v).last = σ.last := rfl
@[simp] lemma last_setPrev : (σ.setPrev f a k).last = σ.last := rfl
@[simp] lemma first_setNext : (σ.setNext f a v).first = σ.first := rfl
@[simp] lemma first_setPrev : (σ.setPrev f a k).first = σ.first := rfl
@[simp] lemma next_setPrev : (σ.setPrev f a k).next = σ.next := rfl

lemma next_setNext (g : F) (b : α) :
    (σ.setNext f a v).next g b = if g = f ∧ b = a then v else σ.next g b := rfl

lemma prev_setPrev (g : F) (b : α) :
    (σ.setPrev f a k).prev g b = if g = f ∧ b = a then k else σ.prev g b := rfl

end Nodes

variable [DecidableEq H] [DecidableEq F] [DecidableEq α]

/-- Store a pointer at an address. -/
def store (σ : Heap H F α) : Addr H F α → Option α → Option (Heap H F α)
  | .null, _ => none
  | .first h, v => some (σ.setFirst h v)
  | .next f a, v => some (σ.setNext f a v)

/-- What a store changes. -/
lemma exists_store (hk : k ≠ .null) (v : Option α) : ∃ σ', σ.store k v = some σ' ∧
    (∀ l, σ'.deref l = if l = k then v else σ.deref l) ∧ σ'.prev = σ.prev ∧ σ'.last = σ.last := by
  cases k with
  | null => exact absurd rfl hk
  | first h => exact ⟨_, rfl, fun _ => deref_setFirst, rfl, rfl⟩
  | next f a => exact ⟨_, rfl, fun _ => deref_setNext, rfl, rfl⟩

end Heap

/-! ## Segments -/

/-- From the address `l`, following next-pointers, come the nodes `as`; each knows the address it
is reached through, and `l'` is the address after the last of them. -/
def Path (σ : Heap H F α) (f : F) : Addr H F α → List α → Addr H F α → Prop
  | l, [], l' => l = l'
  | l, a :: as, l' => σ.deref l = some a ∧ σ.prev f a = l ∧ Path σ f (.next f a) as l'

section Segments

variable {σ σ' : Heap H F α} {f : F} {h : H} {l l' k : Addr H F α} {as bs : List α} {a : α}

lemma Path.append_iff : ∀ {as : List α} {l : Addr H F α},
    Path σ f l (as ++ bs) l' ↔ ∃ k, Path σ f l as k ∧ Path σ f k bs l'
  | [], l => by simp [Path]
  | a :: as, l => by
      simp only [List.cons_append, Path, @Path.append_iff as]
      constructor
      · rintro ⟨h₁, h₂, k, h₃, h₄⟩
        exact ⟨k, ⟨h₁, h₂, h₃⟩, h₄⟩
      · rintro ⟨k, ⟨h₁, h₂, h₃⟩, h₄⟩
        exact ⟨h₁, h₂, k, h₃, h₄⟩

/-- An address is one of a segment's: the first one, or a node's. -/
def OnPath (f : F) (l : Addr H F α) (as : List α) (k : Addr H F α) : Prop :=
  k = l ∨ ∃ a ∈ as, k = .next f a

lemma OnPath.cons (h : OnPath f (.next f a) as k) : OnPath f l (a :: as) k := by
  obtain rfl | ⟨b, hb, rfl⟩ := h
  · exact .inr ⟨a, by simp, rfl⟩
  · exact .inr ⟨b, by simp [hb], rfl⟩

/-- The address after the last node is on the path. -/
lemma Path.onPath : ∀ {as : List α} {l : Addr H F α}, Path σ f l as l' → OnPath f l as l'
  | [], _, h => .inl (Eq.symm h)
  | _ :: _, _, ⟨_, _, h⟩ => h.onPath.cons

/-- A node of a segment is reached through an address of the segment, which it knows. -/
lemma Path.prev_onPath : ∀ {as : List α} {l : Addr H F α}, Path σ f l as l' → a ∈ as →
    OnPath f l as (σ.prev f a) ∧ σ.deref (σ.prev f a) = some a
  | b :: as, l, ⟨hd, hp, h⟩, ha => by
      obtain rfl | ha := List.mem_cons.mp ha
      · exact ⟨.inl hp, hp ▸ hd⟩
      · obtain ⟨hon, hderef⟩ := h.prev_onPath ha
        exact ⟨hon.cons, hderef⟩

lemma Path.end_unique : ∀ {as : List α} {l : Addr H F α}, Path σ f l as k → Path σ f l as l' →
    k = l'
  | [], _, h, h' => (Eq.symm h).trans h'
  | _ :: _, _, ⟨_, _, h⟩, ⟨_, _, h'⟩ => h.end_unique h'

/-- A segment survives a change that leaves alone what its nodes are reached through. -/
lemma Path.frame : ∀ {as : List α} {l : Addr H F α}, Path σ f l as l' →
    (∀ a ∈ as, σ'.prev f a = σ.prev f a ∧ σ'.deref (σ.prev f a) = some a) → Path σ' f l as l'
  | [], _, h, _ => h
  | a :: as, l, ⟨_, hp, h⟩, hsame => by
      obtain ⟨hprev, hderef⟩ := hsame a (by simp)
      exact ⟨hp ▸ hderef, hprev.trans hp, h.frame fun b hb => hsame b (by simp [hb])⟩

end Segments

/-! ## Chains -/

/-- The list `as` hangs at the head `h`, through the link field `f`, and `e` is the address of the
final null pointer. -/
structure Chain (σ : Heap H F α) (f : F) (h : H) (as : List α) (e : Addr H F α) : Prop where
  nodup : as.Nodup
  path : Path σ f (.first h) as e
  stop : σ.deref e = none

/-- `a` has been put where the address `k` points. -/
structure Inserted [DecidableEq H] [DecidableEq F] [DecidableEq α] (σ σ' : Heap H F α) (f : F)
    (k : Addr H F α) (a : α) : Prop where
  deref : ∀ l, σ'.deref l =
    if l = k then some a else if l = .next f a then σ.deref k else σ.deref l
  prev : ∀ g b, σ'.prev g b =
    if g = f ∧ b = a then k else if g = f ∧ σ.deref k = some b then .next f a else σ.prev g b

/-- The address `k`, which pointed to `a`, points past it. -/
structure Removed [DecidableEq H] [DecidableEq F] [DecidableEq α] (σ σ' : Heap H F α) (f : F)
    (k : Addr H F α) (a : α) : Prop where
  deref : ∀ l, σ'.deref l = if l = k then σ.next f a else σ.deref l
  prev : ∀ g b, σ'.prev g b = if g = f ∧ σ.next f a = some b then k else σ.prev g b

/-- Only the head `h` and, in the link field `f`, only the nodes `A` may differ. -/
structure Within (σ σ' : Heap H F α) (f : F) (h : H) (A : List α) : Prop where
  first : ∀ h', h' ≠ h → σ'.first h' = σ.first h'
  next : ∀ g b, (g = f → b ∉ A) → σ'.next g b = σ.next g b
  prev : ∀ g b, (g = f → b ∉ A) → σ'.prev g b = σ.prev g b

section Chains

variable {σ σ' : Heap H F α} {f g : F} {h h' : H} {e e' k l : Addr H F α} {as bs xs ys A : List α}
  {a b : α}

lemma Chain.first_eq (hc : Chain σ f h as e) : σ.first h = as.head? := by
  cases as with
  | nil =>
      have hend : .first h = e := hc.path
      rw [List.head?_nil, ← hc.stop, ← hend, Heap.deref]
  | cons a as => exact hc.path.1

lemma nodes_of_path (hstop : σ.deref e = none) : ∀ {as : List α} {l : Addr H F α} {n : ℕ},
    Path σ f l as e → as.length ≤ n → σ.nodes f n (σ.deref l) = as
  | [], l, n, hp, _ => by
      rw [show l = e from hp, hstop]
      cases n <;> rfl
  | a :: as, l, n + 1, ⟨hd, _, hp⟩, hn => by
      rw [hd, Heap.nodes]
      congr 1
      exact nodes_of_path hstop hp (by simpa using hn)

/-- Following the next-pointers gives the sequence. -/
lemma Chain.nodes_eq (hc : Chain σ f h as e) {n : ℕ} (hn : as.length ≤ n) :
    σ.nodes f n (σ.first h) = as :=
  nodes_of_path hc.stop hc.path hn

lemma OnPath.first_eq (hk : OnPath f (.first h) as (.first h' : Addr H F α)) : h' = h := by
  obtain heq | ⟨b, -, heq⟩ := hk
  · exact Addr.first.inj heq
  · simp at heq

lemma OnPath.next_mem (hk : OnPath f (.first h) as (.next g b : Addr H F α)) :
    g = f ∧ b ∈ as := by
  obtain heq | ⟨c, hc, heq⟩ := hk
  · simp at heq
  · obtain ⟨rfl, rfl⟩ := Addr.next.inj heq
    exact ⟨rfl, hc⟩

lemma onPath_ne_null (hk : OnPath f (.first h) as k) : k ≠ .null := by
  rintro rfl
  obtain hc | ⟨b, -, hc⟩ := hk <;> simp at hc

/-- A path whose first address is not on the chain of another head never meets that chain. -/
lemma Path.notMem (hbs : ∀ b ∈ bs, OnPath f (.first h') bs (σ.prev f b)) :
    ∀ {as : List α} {l : Addr H F α}, Path σ f l as e → ¬ OnPath f (.first h') bs l →
      ∀ a ∈ as, a ∉ bs
  | [], _, _, _, _, ha => by simp at ha
  | b :: as, l, ⟨_, hp, hrest⟩, hl, a, ha => by
      have hb : b ∉ bs := fun hb => hl (hp ▸ hbs b hb)
      have hnext : ¬ OnPath f (.first h') bs (.next f b) := fun hon => hb hon.next_mem.2
      obtain rfl | ha := List.mem_cons.mp ha
      · exact hb
      · exact hrest.notMem hbs hnext a ha

/-- **Two lists through one link field have no node in common.** -/
lemma Chain.disjoint (hc : Chain σ f h as e) (hc' : Chain σ f h' bs e') (hne : h ≠ h') :
    ∀ a ∈ as, a ∉ bs := by
  refine hc.path.notMem (fun b hb => (hc'.path.prev_onPath hb).1) ?_
  rintro (heq | ⟨b, -, heq⟩)
  · exact hne (Addr.first.inj heq)
  · simp at heq

/-! ## What a change leaves alone -/

lemma Within.deref (hw : Within σ σ' f h A) (hl : OnPath g (.first h') as l) (hne : h' ≠ h)
    (hdisj : g = f → ∀ b ∈ as, b ∉ A) : σ'.deref l = σ.deref l := by
  obtain rfl | ⟨b, hb, rfl⟩ := hl
  · exact hw.first h' hne
  · exact hw.next g b fun hg => hdisj hg b hb

/-- The chain of another head is left alone, if its nodes are. -/
lemma Chain.within (hc : Chain σ g h' bs e) (hw : Within σ σ' f h A) (hne : h' ≠ h)
    (hdisj : g = f → ∀ b ∈ bs, b ∉ A) : Chain σ' g h' bs e where
  nodup := hc.nodup
  path := by
    refine hc.path.frame fun b hb => ?_
    obtain ⟨hon, hderef⟩ := hc.path.prev_onPath hb
    exact ⟨hw.prev g b fun hg => hdisj hg b hb, (hw.deref hon hne hdisj).trans hderef⟩
  stop := (hw.deref hc.path.onPath hne hdisj).trans hc.stop

variable [DecidableEq H] [DecidableEq F] [DecidableEq α]

lemma Inserted.within (hins : Inserted σ σ' f k a) (hk : OnPath f (.first h) as k)
    (hn : ∀ b, σ.deref k = some b → b ∈ as) : Within σ σ' f h (a :: as) where
  first h' hne := by
    have hk' : .first h' ≠ k := by
      rintro rfl
      exact hne hk.first_eq
    have hd := hins.deref (.first h')
    rwa [if_neg hk', if_neg (by simp)] at hd
  next g b hb := by
    have hk' : .next g b ≠ k := by
      rintro rfl
      obtain ⟨hg, hmem⟩ := hk.next_mem
      exact hb hg (by simp [hmem])
    have hba : (.next g b : Addr H F α) ≠ .next f a := by
      rintro ⟨⟩
      exact hb rfl (by simp)
    have hd := hins.deref (.next g b)
    rwa [if_neg hk', if_neg hba] at hd
  prev g b hb := by
    rw [hins.prev, if_neg, if_neg]
    · rintro ⟨hg, hd⟩
      exact hb hg (by simp [hn b hd])
    · rintro ⟨hg, rfl⟩
      exact hb hg (by simp)

lemma Removed.within (hrem : Removed σ σ' f k a) (hk : OnPath f (.first h) as k)
    (hn : ∀ b, σ.next f a = some b → b ∈ as) : Within σ σ' f h as where
  first h' hne := by
    have hk' : .first h' ≠ k := by
      rintro rfl
      exact hne hk.first_eq
    have hd := hrem.deref (.first h')
    rwa [if_neg hk'] at hd
  next g b hb := by
    have hk' : .next g b ≠ k := by
      rintro rfl
      obtain ⟨hg, hmem⟩ := hk.next_mem
      exact hb hg hmem
    have hd := hrem.deref (.next g b)
    rwa [if_neg hk'] at hd
  prev g b hb := by
    rw [hrem.prev, if_neg]
    rintro ⟨hg, hd⟩
    exact hb hg (hn b hd)

/-! ## Putting a node in, and taking one out -/

/-- A node that `k` does not point at is reached as before. -/
lemma Inserted.keeps (hins : Inserted σ σ' f k a) (hk : σ.deref k ≠ some b) (hba : b ≠ a)
    (hb : σ.deref (σ.prev f b) = some b) (hna : σ.prev f b ≠ .next f a) :
    σ'.prev f b = σ.prev f b ∧ σ'.deref (σ.prev f b) = some b := by
  have hne : σ.prev f b ≠ k := by
    intro heq
    exact hk (heq ▸ hb)
  refine ⟨?_, ?_⟩
  · rw [hins.prev, if_neg (fun h => hba h.2), if_neg (fun h => hk h.2)]
  · rw [hins.deref, if_neg hne, if_neg hna, hb]

/-- **A new node takes its place after the address that is made to point at it.** -/
lemma Chain.insert (hc : Chain σ f h (xs ++ ys) e) (hxs : Path σ f (.first h) xs k)
    (ha : a ∉ xs ++ ys) (hins : Inserted σ σ' f k a) :
    Chain σ' f h (xs ++ a :: ys) (if σ.deref k = none then .next f a else e) := by
  obtain ⟨k', hxs', hys⟩ := Path.append_iff.mp hc.path
  obtain rfl : k = k' := hxs.end_unique hxs'
  obtain ⟨-, hnd, hdisj⟩ := List.nodup_append.mp hc.nodup
  have hax : a ∉ xs := fun hmem => ha (by simp [hmem])
  have hay : a ∉ ys := fun hmem => ha (by simp [hmem])
  have hka : k ≠ .next f a := by
    rintro rfl
    exact hax hxs.onPath.next_mem.2
  -- every other node is reached through the address of a node that is on the list
  have hkeeps : ∀ b ∈ xs ++ ys, σ.deref k ≠ some b →
      σ'.prev f b = σ.prev f b ∧ σ'.deref (σ.prev f b) = some b := by
    intro b hb hk
    obtain ⟨hon, hderef⟩ := hc.path.prev_onPath hb
    refine hins.keeps hk (fun hba => ha (hba ▸ hb)) hderef fun heq => ?_
    rw [heq] at hon
    exact ha hon.next_mem.2
  have hfront : (∀ b ∈ xs, σ.deref k ≠ some b) → Path σ' f (.first h) xs k :=
    fun hne => hxs.frame fun b hb => hkeeps b (by simp [hb]) (hne b hb)
  have hto : σ'.deref k = some a := by rw [hins.deref, if_pos rfl]
  have hback : σ'.prev f a = k := by rw [hins.prev, if_pos ⟨rfl, rfl⟩]
  have hfrom : σ'.deref (.next f a) = σ.deref k := by
    rw [hins.deref, if_neg hka.symm, if_pos rfl]
  refine ⟨List.nodup_middle.mpr (List.nodup_cons.mpr ⟨ha, hc.nodup⟩), ?_, ?_⟩
  · rw [Path.append_iff]
    cases ys with
    | nil =>
        have hnone : σ.deref k = none := by
          rw [show k = e from hys, hc.stop]
        rw [if_pos hnone]
        exact ⟨k, hfront (by simp [hnone]), hto, hback, rfl⟩
    | cons c zs =>
        obtain ⟨hd, hp, hzs⟩ := hys
        have hcz := (List.nodup_cons.mp hnd).1
        rw [if_neg (by simp [hd])]
        refine ⟨k, hfront fun b hb => ?_, hto, hback, hfrom.trans hd, ?_, hzs.frame fun b hb => ?_⟩
        · rw [hd, ne_eq, Option.some.injEq]
          exact (hdisj b hb c (by simp)).symm
        · rw [hins.prev, if_neg (fun heq => hay (by simp [heq.2])), if_pos ⟨rfl, hd⟩]
        · refine hkeeps b (by simp [hb]) ?_
          rw [hd, ne_eq, Option.some.injEq]
          rintro rfl
          exact hcz hb
  · split_ifs with hnone
    · rw [hfrom, hnone]
    · rw [hins.deref, if_neg, if_neg, hc.stop]
      · rintro rfl
        exact ha hc.path.onPath.next_mem.2
      · rintro rfl
        exact hnone hc.stop

/-- **A node that is pointed past is gone.** -/
lemma Chain.remove (hc : Chain σ f h (xs ++ a :: ys) e) (hrem : Removed σ σ' f (σ.prev f a) a) :
    Chain σ' f h (xs ++ ys) (if σ.next f a = none then σ.prev f a else e) := by
  obtain ⟨k, hxs, hd, hp, hys⟩ := Path.append_iff.mp hc.path
  rw [hp] at hrem ⊢
  obtain ⟨hnx, hnay, hdisj⟩ := List.nodup_append.mp hc.nodup
  obtain ⟨hay, hnd⟩ := List.nodup_cons.mp hnay
  have hnd' : (xs ++ ys).Nodup :=
    List.nodup_append.mpr ⟨hnx, hnd, fun x hx y hy => hdisj x hx y (by simp [hy])⟩
  have hax : a ∉ xs := fun hmem => hdisj a hmem a (by simp) rfl
  -- every other node is reached through another address than `a` is
  have hkeeps : ∀ b ∈ xs ++ ys, σ.next f a ≠ some b →
      σ'.prev f b = σ.prev f b ∧ σ'.deref (σ.prev f b) = some b := by
    intro b hb hk
    have hba : b ≠ a := by
      rintro rfl
      exact (List.mem_append.mp hb).elim hax hay
    obtain ⟨-, hderef⟩ := hc.path.prev_onPath (a := b) (by
      rw [List.mem_append, List.mem_cons]
      exact (List.mem_append.mp hb).imp id .inr)
    refine ⟨by rw [hrem.prev, if_neg (fun heq => hk heq.2)], ?_⟩
    rw [hrem.deref, if_neg, hderef]
    intro heq
    rw [heq, hd, Option.some.injEq] at hderef
    exact hba hderef.symm
  have hfront : (∀ b ∈ xs, σ.next f a ≠ some b) → Path σ' f (.first h) xs k :=
    fun hne => hxs.frame fun b hb => hkeeps b (by simp [hb]) (hne b hb)
  have hto : σ'.deref k = σ.next f a := by rw [hrem.deref, if_pos rfl]
  refine ⟨hnd', ?_, ?_⟩
  · cases ys with
    | nil =>
        have hnone : σ.next f a = none := by
          rw [← hc.stop, ← show .next f a = e from hys, Heap.deref]
        rw [if_pos hnone, List.append_nil]
        exact hfront (by simp [hnone])
    | cons c zs =>
        obtain ⟨hnext, -, hzs⟩ := hys
        have hnext : σ.next f a = some c := hnext
        have hcz := (List.nodup_cons.mp hnd).1
        rw [if_neg (by simp [hnext]), Path.append_iff]
        refine ⟨k, hfront fun b hb => ?_, hto.trans hnext, ?_, hzs.frame fun b hb => ?_⟩
        · rw [hnext, ne_eq, Option.some.injEq]
          exact (hdisj b hb c (by simp)).symm
        · rw [hrem.prev, if_pos ⟨rfl, hnext⟩]
        · refine hkeeps b (by simp [hb]) ?_
          rw [hnext, ne_eq, Option.some.injEq]
          rintro rfl
          exact hcz hb
  · split_ifs with hnone
    · rw [hto, hnone]
    · rw [hrem.deref, if_neg, hc.stop]
      rintro rfl
      rw [hc.stop] at hd
      simp at hd

end Chains

end LinkedLists
