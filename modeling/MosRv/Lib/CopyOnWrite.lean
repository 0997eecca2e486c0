import Mathlib.Data.List.Basic
import Mathlib.Logic.Function.Basic

/-!
# Copy on write

Processes `π` have pages `ν`, which are mapped to frames `φ` that hold contents `δ`.  When a process
forks, nothing is copied: parent and child map the same frames, and the pages that both could store
to are marked, so that a store to them is made to a copy (`Frames.Step`).  Pages that are shared on
purpose are not marked.

What the processes should get to see of this is `Plain`: every page is either the process's own or
an object that is shared, and a page that a child is given is a copy of the former.
`Represents.step` says that each step of the frames is one of the plain memory, as long as a frame
that can be stored to through a page of one's own is mapped there alone (`Sound`), which
`Sound.step` keeps; `Run.represents` is the same for runs, and `Represents.load` what it comes to
for the loads.
-/

namespace CopyOnWrite

/-- What may be done with a mapping: stores go through, stores are to be made to a copy, and the
page is shared on purpose. -/
structure Flags where
  write : Bool
  onWrite : Bool
  shared : Bool

namespace Flags

variable (a : Flags)

/-- Stores are allowed, if need be to a copy. -/
def stores : Bool := a.write || a.onWrite

/-- The flags after a fork, in the parent and in the child. -/
def dup : Flags := if a.write && !a.shared then { a with write := false, onWrite := true } else a

/-- The flags of a copy. -/
def copied : Flags := { a with write := true, onWrite := false }

@[simp] lemma dup_shared : a.dup.shared = a.shared := by
  rw [dup]
  split_ifs <;> rfl

@[simp] lemma dup_stores : a.dup.stores = a.stores := by
  rw [dup]
  split_ifs with h
  · rw [Bool.and_eq_true] at h
    simp [stores, h.1]
  · rfl

/-- No page of one's own can be stored to after a fork. -/
lemma shared_of_dup_write (h : a.dup.write = true) : a.shared = true := by
  rw [dup] at h
  split_ifs at h with hc
  rw [Bool.and_eq_true, h, Bool.not_eq_true'] at hc
  simpa using hc

lemma dup_of_shared (h : a.shared = true) : a.dup = a := by
  rw [dup, h]
  simp

@[simp] lemma copied_shared : a.copied.shared = a.shared := rfl

lemma copied_stores (h : a.onWrite = true) : a.copied.stores = a.stores := by
  simp [copied, stores, h]

end Flags

variable {π ν φ δ : Type*}

/-- The memory as it is. -/
structure Frames (π ν φ δ : Type*) where
  entry : π → ν → Option (φ × Flags)
  content : φ → δ

/-- A page as the processes see it. -/
inductive Cell (φ δ : Type*)
  | own (stores : Bool) (d : δ)
  | shared (stores : Bool) (f : φ)

/-- **The memory as the processes see it.** -/
structure Plain (π ν φ δ : Type*) where
  cell : π → ν → Option (Cell φ δ)
  object : φ → δ

/-- What happens to the memory. -/
inductive Act (π ν φ δ : Type*)
  | idle
  /-- The process `p` gets a new page of its own … -/
  | touch (p : π) (v : ν) (stores : Bool) (d : δ)
  /-- … or one that is shared. -/
  | link (p : π) (v : ν) (stores : Bool) (f : φ) (d : δ)
  | store (p : π) (v : ν) (g : δ → δ)
  /-- The page is copied, because `p` is about to store to it. -/
  | copy (p : π) (v : ν)
  /-- The child `c` is given the page `v` of `p`. -/
  | dup (p c : π) (v : ν)
  /-- Pages are given up. -/
  | drop (P : π → ν → Prop)
  /-- Others store to what is shared. -/
  | outside (g : φ → δ)

namespace Plain

/-- What the process `p` finds on its page `v`. -/
def load (r : Plain π ν φ δ) (p : π) (v : ν) : Option δ :=
  (r.cell p v).map fun c => match c with
    | .own _ d => d
    | .shared _ f => r.object f

open Classical in
/-- The page `v` of `p` is another one. -/
noncomputable def setCell (r : Plain π ν φ δ) (p : π) (v : ν) (c : Option (Cell φ δ)) :
    Plain π ν φ δ :=
  { r with cell := fun q u => if q = p ∧ u = v then c else r.cell q u }

lemma setCell_self (r : Plain π ν φ δ) (p : π) (v : ν) (c : Option (Cell φ δ)) :
    (r.setCell p v c).cell p v = c := if_pos ⟨rfl, rfl⟩

lemma setCell_of_ne (r : Plain π ν φ δ) {p q : π} {v u : ν} (c : Option (Cell φ δ))
    (h : ¬ (q = p ∧ u = v)) : (r.setCell p v c).cell q u = r.cell q u := if_neg h

open Classical in
/-- **What is to happen**: a child's page is a copy, and a copy on write goes unnoticed. -/
noncomputable def exec (r : Plain π ν φ δ) : Act π ν φ δ → Plain π ν φ δ
  | .idle | .copy _ _ => r
  | .touch p v s d => r.setCell p v (some (.own s d))
  | .link p v s f d =>
      { r.setCell p v (some (.shared s f)) with object := Function.update r.object f d }
  | .store p v g =>
      match r.cell p v with
      | some (.own s d) => r.setCell p v (some (.own s (g d)))
      | some (.shared _ f) => { r with object := Function.update r.object f (g (r.object f)) }
      | none => r
  | .dup p c v => r.setCell c v (r.cell p v)
  | .drop P => { r with cell := fun p v => if P p v then none else r.cell p v }
  | .outside g => { r with object := g }

end Plain

namespace Frames

variable {m m' m'' : Frames π ν φ δ}

/-- What the process `p` finds on its page `v`. -/
def load (m : Frames π ν φ δ) (p : π) (v : ν) : Option δ := (m.entry p v).map fun e => m.content e.1

/-- The frame `f` is not mapped. -/
def Fresh (m : Frames π ν φ δ) (f : φ) : Prop := ∀ q u g a, m.entry q u = some (g, a) → g ≠ f

/-- The mapped frames hold what they held. -/
def Keeps (m m' : Frames π ν φ δ) : Prop :=
  ∀ q u g a, m.entry q u = some (g, a) → m'.content g = m.content g

/-- Of the entries, that of the page `v` of `p` is `o`. -/
def Sets (m m' : Frames π ν φ δ) (p : π) (v : ν) (o : Option (φ × Flags)) : Prop :=
  m'.entry p v = o ∧ ∀ q u, ¬ (q = p ∧ u = v) → m'.entry q u = m.entry q u

/-- **What happens.** -/
inductive Step (m m' : Frames π ν φ δ) : Act π ν φ δ → Prop
  | idle (hentry : m'.entry = m.entry) (hkeeps : m.Keeps m') : Step m m' .idle
  | touch {p : π} {v : ν} {f : φ} {a : Flags} {d : δ} (hown : a.shared = false) (hfresh : m.Fresh f)
      (hsets : m.Sets m' p v (some (f, a))) (hnew : m'.content f = d) (hkeeps : m.Keeps m') :
      Step m m' (.touch p v a.stores d)
  | link {p : π} {v : ν} {f : φ} {a : Flags} {d : δ} (hshared : a.shared = true)
      (honWrite : a.onWrite = false) (hf : ∀ q u b, m.entry q u = some (f, b) → b.shared = true)
      (hsets : m.Sets m' p v (some (f, a))) (hnew : m'.content f = d) (hkeeps : m.Keeps m') :
      Step m m' (.link p v a.stores f d)
  | store {p : π} {v : ν} {f : φ} {a : Flags} {g : δ → δ} (he : m.entry p v = some (f, a))
      (hwrite : a.write = true) (hentry : m'.entry = m.entry)
      (hself : m'.content f = g (m.content f))
      (hrest : ∀ q u f' b, m.entry q u = some (f', b) → f' ≠ f → m'.content f' = m.content f') :
      Step m m' (.store p v g)
  | copy {p : π} {v : ν} {f f' : φ} {a : Flags} (he : m.entry p v = some (f, a))
      (honWrite : a.onWrite = true) (hfresh : m.Fresh f')
        (hsets : m.Sets m' p v (some (f', a.copied)))
      (hcopy : m'.content f' = m.content f) (hkeeps : m.Keeps m') : Step m m' (.copy p v)
  | dup {p c : π} {v : ν} {f : φ} {a : Flags} (he : m.entry p v = some (f, a))
      (hparent : m'.entry p v = some (f, a.dup)) (hchild : m'.entry c v = some (f, a.dup))
      (hother : ∀ q u, ¬ (q = p ∧ u = v) → ¬ (q = c ∧ u = v) → m'.entry q u = m.entry q u)
      (hkeeps : m.Keeps m') : Step m m' (.dup p c v)
  | drop {P : π → ν → Prop} (hgone : ∀ q u, P q u → m'.entry q u = none)
      (hrest : ∀ q u, ¬ P q u → m'.entry q u = m.entry q u) (hkeeps : m.Keeps m') :
      Step m m' (.drop P)
  | outside {g : φ → δ} (hentry : m'.entry = m.entry)
      (hshared : ∀ q u f a, m.entry q u = some (f, a) → a.shared = true → m'.content f = g f)
      (hown : ∀ q u f a, m.entry q u = some (f, a) → a.shared = false →
        m'.content f = m.content f) : Step m m' (.outside g)

/-- **Frames that can be stored to through a page of one's own are mapped there alone.** -/
structure Sound (m : Frames π ν φ δ) : Prop where
  sole : ∀ p v f a, m.entry p v = some (f, a) → a.write = true → a.shared = false →
    ∀ q u b, m.entry q u = some (f, b) → q = p ∧ u = v
  agree : ∀ p v f a q u b, m.entry p v = some (f, a) → m.entry q u = some (f, b) →
    a.shared = b.shared
  library : ∀ p v f a, m.entry p v = some (f, a) → a.shared = true → a.onWrite = false

lemma Fresh.ne (h : m.Fresh f) {q : π} {u : ν} {a : Flags} : m.entry q u ≠ some (f, a) :=
  fun hc => h q u f a hc rfl

/-- An entry after `Sets`. -/
lemma Sets.cases {p q : π} {v u : ν} {f f' : φ} {a b : Flags} (h : m.Sets m' p v (some (f, a)))
    (he : m'.entry q u = some (f', b)) :
    (q = p ∧ u = v ∧ f' = f ∧ b = a) ∨ (¬ (q = p ∧ u = v) ∧ m.entry q u = some (f', b)) := by
  by_cases hqu : q = p ∧ u = v
  · obtain ⟨rfl, rfl⟩ := hqu
    rw [h.1] at he
    cases he
    exact .inl ⟨rfl, rfl, rfl, rfl⟩
  · exact .inr ⟨hqu, (h.2 q u hqu).symm.trans he⟩

/-- A page gets a frame that is shared, or is mapped nowhere. -/
lemma Sound.sets {p : π} {v : ν} {f : φ} {a : Flags} (h : m.Sound)
    (hf : ∀ q u b, m.entry q u = some (f, b) → a.shared = true ∧ b.shared = true)
    (hsets : m.Sets m' p v (some (f, a))) (hlib : a.shared = true → a.onWrite = false) :
    m'.Sound := by
  refine ⟨fun q u f' b he hw hs q' u' b' he' => ?_, fun q u f' b q' u' b' he he' => ?_,
    fun q u f' b he hs => ?_⟩
  · rcases hsets.cases he with ⟨rfl, rfl, rfl, rfl⟩ | ⟨hqu, hold⟩
    · rcases hsets.cases he' with ⟨rfl, rfl, -, -⟩ | ⟨-, hold'⟩
      · exact ⟨rfl, rfl⟩
      · rw [(hf q' u' b' hold').1] at hs
        cases hs
    · rcases hsets.cases he' with ⟨-, -, rfl, -⟩ | ⟨-, hold'⟩
      · rw [(hf q u b hold).2] at hs
        cases hs
      · exact h.sole q u f' b hold hw hs q' u' b' hold'
  · rcases hsets.cases he with ⟨rfl, rfl, rfl, rfl⟩ | ⟨hqu, hold⟩
    · rcases hsets.cases he' with ⟨-, -, -, rfl⟩ | ⟨-, hold'⟩
      · rfl
      · exact (hf q' u' b' hold').1.trans (hf q' u' b' hold').2.symm
    · rcases hsets.cases he' with ⟨-, -, rfl, rfl⟩ | ⟨-, hold'⟩
      · exact (hf q u b hold).2.trans (hf q u b hold).1.symm
      · exact h.agree q u f' b q' u' b' hold hold'
  · rcases hsets.cases he with ⟨rfl, rfl, rfl, rfl⟩ | ⟨hqu, hold⟩
    · exact hlib hs
    · exact h.library q u f' b hold hs

lemma Sound.dup {p c : π} {v : ν} {f : φ} {a : Flags} (h : m.Sound)
    (he : m.entry p v = some (f, a)) (hparent : m'.entry p v = some (f, a.dup))
    (hchild : m'.entry c v = some (f, a.dup))
    (hother : ∀ q u, ¬ (q = p ∧ u = v) → ¬ (q = c ∧ u = v) → m'.entry q u = m.entry q u) :
    m'.Sound := by
  -- an entry of the page is the parent's, and the others are as they were
  have hcase : ∀ q u f' b, m'.entry q u = some (f', b) →
      (f' = f ∧ b = a.dup) ∨ (¬ (q = p ∧ u = v) ∧ m.entry q u = some (f', b)) := by
    intro q u f' b he'
    by_cases hp : q = p ∧ u = v
    · rw [hp.1, hp.2, hparent] at he'
      cases he'
      exact .inl ⟨rfl, rfl⟩
    · by_cases hc : q = c ∧ u = v
      · rw [hc.1, hc.2, hchild] at he'
        cases he'
        exact .inl ⟨rfl, rfl⟩
      · exact .inr ⟨hp, (hother q u hp hc).symm.trans he'⟩
  refine ⟨fun q u f' b he₁ hw hs q' u' b' he₂ => ?_, fun q u f' b q' u' b' he₁ he₂ => ?_,
    fun q u f' b he₁ hs => ?_⟩
  · rcases hcase q u f' b he₁ with ⟨-, rfl⟩ | ⟨hq, hold⟩
    · rw [Flags.dup_shared, a.shared_of_dup_write hw] at hs
      cases hs
    · rcases hcase q' u' f' b' he₂ with ⟨rfl, -⟩ | ⟨-, hold'⟩
      · obtain ⟨rfl, rfl⟩ := h.sole q u f' b hold hw hs p v a he
        exact absurd ⟨rfl, rfl⟩ hq
      · exact h.sole q u f' b hold hw hs q' u' b' hold'
  · rcases hcase q u f' b he₁ with ⟨rfl, rfl⟩ | ⟨-, hold⟩ <;>
      rcases hcase q' u' f' b' he₂ with ⟨hf, rfl⟩ | ⟨-, hold'⟩
    · rfl
    · exact a.dup_shared.trans (h.agree p v f' a q' u' b' he hold')
    · exact (h.agree q u f' b p v a hold (hf ▸ he)).trans a.dup_shared.symm
    · exact h.agree q u f' b q' u' b' hold hold'
  · rcases hcase q u f' b he₁ with ⟨rfl, rfl⟩ | ⟨-, hold⟩
    · rw [Flags.dup_shared] at hs
      rw [a.dup_of_shared hs]
      exact h.library p v f' a he hs
    · exact h.library q u f' b hold hs

/-- Fewer entries. -/
lemma Sound.of_le (h : m.Sound)
    (hle : ∀ q u f b, m'.entry q u = some (f, b) → m.entry q u = some (f, b)) : m'.Sound where
  sole p v f a he hw hs q u b he' := h.sole p v f a (hle p v f a he) hw hs q u b (hle q u f b he')
  agree p v f a q u b he he' := h.agree p v f a q u b (hle p v f a he) (hle q u f b he')
  library p v f a he hs := h.library p v f a (hle p v f a he) hs

/-- **Every step keeps the frames sound.** -/
theorem Sound.step {act : Act π ν φ δ} (h : m.Sound) (hs : Step m m' act) : m'.Sound := by
  have hsame : m'.entry = m.entry → m'.Sound := fun hentry => h.of_le fun q u f b he => hentry ▸ he
  cases hs with
  | idle hentry _ => exact hsame hentry
  | touch hown hfresh hsets _ _ =>
      refine h.sets (fun q u b hc => absurd hc hfresh.ne) hsets fun hc => ?_
      exact absurd (hown.symm.trans hc) (by simp)
  | link hshared honWrite hf hsets _ _ =>
      exact h.sets (fun q u b hc => ⟨hshared, hf q u b hc⟩) hsets fun _ => honWrite
  | store _ _ hentry _ _ => exact hsame hentry
  | copy _ _ hfresh hsets _ _ =>
      exact h.sets (fun q u b hc => absurd hc hfresh.ne) hsets fun _ => rfl
  | dup he hparent hchild hother _ => exact h.dup he hparent hchild hother
  | @drop P hgone hrest _ =>
      refine h.of_le fun q u f b he => ?_
      by_cases hP : P q u
      · rw [hgone q u hP] at he
        cases he
      · rwa [← hrest q u hP]
  | outside hentry _ _ => exact hsame hentry

/-- The page as it is seen. -/
def toCell (m : Frames π ν φ δ) (e : φ × Flags) : Cell φ δ :=
  if e.2.shared then .shared e.2.stores e.1 else .own e.2.stores (m.content e.1)

/-- The memory as it is seen. -/
def plain (m : Frames π ν φ δ) : Plain π ν φ δ where
  cell p v := (m.entry p v).map m.toCell
  object := m.content

/-- **The processes see the frames as the plain memory `r`.** -/
structure Represents (m : Frames π ν φ δ) (r : Plain π ν φ δ) : Prop where
  cell : ∀ p v, r.cell p v = (m.entry p v).map m.toCell
  object : ∀ p v f a, m.entry p v = some (f, a) → a.shared = true → r.object f = m.content f

lemma represents_plain (m : Frames π ν φ δ) : m.Represents m.plain :=
  ⟨fun _ _ => rfl, fun _ _ _ _ _ _ => rfl⟩

lemma toCell_congr {e : φ × Flags} (h : m'.content e.1 = m.content e.1) :
    m'.toCell e = m.toCell e := by
  rw [toCell, toCell, h]

section

variable {r : Plain π ν φ δ} {act : Act π ν φ δ}

/-- **They load what is there.** -/
theorem Represents.load (h : m.Represents r) (p : π) (v : ν) : r.load p v = m.load p v := by
  rw [Plain.load, Frames.load, h.cell, Option.map_map]
  cases he : m.entry p v with
  | none => rfl
  | some e =>
      simp only [Option.map_some, Function.comp, toCell]
      by_cases hs : e.2.shared = true
      · simp only [if_pos hs, h.object p v e.1 e.2 he hs]
      · simp only [if_neg hs]

lemma Keeps.map_toCell (h : m.Keeps m') (p : π) (v : ν) :
    (m.entry p v).map m'.toCell = (m.entry p v).map m.toCell := by
  cases he : m.entry p v with
  | none => rfl
  | some e => rw [Option.map_some, Option.map_some, toCell_congr (h p v e.1 e.2 he)]

/-- The entries are still there or gone. -/
lemma Represents.keeps {r' : Plain π ν φ δ} (h : m.Represents r) (hkeeps : m.Keeps m')
    (hentry : ∀ q u, (m'.entry q u = none ∧ r'.cell q u = none) ∨
      (m'.entry q u = m.entry q u ∧ r'.cell q u = r.cell q u))
    (hobject : r'.object = r.object) : m'.Represents r' := by
  refine ⟨fun q u => ?_, fun q u f b he hb => ?_⟩
  · rcases hentry q u with ⟨he, hc⟩ | ⟨he, hc⟩
    · rw [he, hc]
      rfl
    · rw [he, hc, h.cell, hkeeps.map_toCell]
  · rcases hentry q u with ⟨hn, -⟩ | ⟨hs, -⟩
    · rw [hn] at he
      cases he
    · rw [hs] at he
      rw [hobject, h.object q u f b he hb, hkeeps q u f b he]

/-- A page gets a frame of its own. -/
lemma Represents.sets {p : π} {v : ν} {f : φ} {a : Flags} (h : m.Represents r) (hkeeps : m.Keeps m')
    (hsets : m.Sets m' p v (some (f, a))) (hs : a.shared = false) :
    m'.Represents (r.setCell p v (some (.own a.stores (m'.content f)))) := by
  refine ⟨fun q u => ?_, fun q u f' b he hb => ?_⟩
  · by_cases hqu : q = p ∧ u = v
    · rw [hqu.1, hqu.2, Plain.setCell_self, hsets.1, Option.map_some, toCell, if_neg (by simp [hs])]
    · rw [Plain.setCell_of_ne _ _ hqu, hsets.2 q u hqu, h.cell, hkeeps.map_toCell]
  · rcases hsets.cases he with ⟨-, -, -, rfl⟩ | ⟨-, hold⟩
    · rw [hs] at hb
      cases hb
    · exact (h.object q u f' b hold hb).trans (hkeeps q u f' b hold).symm

open Classical in
/-- A page gets a frame that is shared. -/
lemma Represents.link {p : π} {v : ν} {f : φ} {a : Flags} (h : m.Represents r) (hkeeps : m.Keeps m')
    (hsets : m.Sets m' p v (some (f, a))) (hs : a.shared = true) :
    m'.Represents (r.exec (.link p v a.stores f (m'.content f))) := by
  rw [Plain.exec]
  refine ⟨fun q u => ?_, fun q u f' b he hb => ?_⟩
  · change (r.setCell p v _).cell q u = _
    by_cases hqu : q = p ∧ u = v
    · rw [hqu.1, hqu.2, Plain.setCell_self, hsets.1, Option.map_some, toCell, if_pos hs]
    · rw [Plain.setCell_of_ne _ _ hqu, hsets.2 q u hqu, h.cell, hkeeps.map_toCell]
  · dsimp only
    by_cases hf : f' = f
    · rw [hf, Function.update_self]
    · rw [Function.update_of_ne hf]
      rcases hsets.cases he with ⟨-, -, hc, -⟩ | ⟨-, hold⟩
      · exact absurd hc hf
      · exact (h.object q u f' b hold hb).trans (hkeeps q u f' b hold).symm

open Classical in
/-- A store through a page that may be stored to. -/
lemma Represents.store {p : π} {v : ν} {f : φ} {a : Flags} {g : δ → δ} (hm : m.Sound)
    (h : m.Represents r) (he : m.entry p v = some (f, a)) (hwrite : a.write = true)
    (hentry : m'.entry = m.entry) (hself : m'.content f = g (m.content f))
    (hrest : ∀ q u f' b, m.entry q u = some (f', b) → f' ≠ f → m'.content f' = m.content f') :
    m'.Represents (r.exec (.store p v g)) := by
  have hcell := h.cell p v
  rw [he, Option.map_some, toCell] at hcell
  by_cases hs : a.shared = true
  · -- the object is another one, and no page of one's own is that frame
    have hobj := h.object p v f a he hs
    simp only [if_pos hs] at hcell
    rw [Plain.exec, hcell]
    refine ⟨fun q u => ?_, fun q u f' b hb hshared => ?_⟩ <;> dsimp only
    · rw [hentry, h.cell]
      cases hq : m.entry q u with
      | none => rfl
      | some e =>
          obtain ⟨f', b⟩ := e
          rw [Option.map_some, Option.map_some, toCell, toCell]
          by_cases hf : f' = f
          · subst hf
            have hb : b.shared = true := (hm.agree p v f' a q u b he hq).symm.trans hs
            simp only [if_pos hb]
          · simp only [hrest q u f' b hq hf]
    · rw [hentry] at hb
      by_cases hf : f' = f
      · rw [hf, Function.update_self, hobj, hself]
      · rw [Function.update_of_ne hf, h.object q u f' b hb hshared, hrest q u f' b hb hf]
  · -- the frame is mapped here alone
    rw [Bool.not_eq_true] at hs
    simp only [hs, Bool.false_eq_true, if_false] at hcell
    rw [Plain.exec, hcell]
    dsimp only
    have hne : ∀ q u f' b, ¬ (q = p ∧ u = v) → m.entry q u = some (f', b) →
        m'.content f' = m.content f' := by
      intro q u f' b hqu hq
      refine hrest q u f' b hq ?_
      rintro rfl
      exact hqu (hm.sole p v f' a he hwrite hs q u b hq)
    refine ⟨fun q u => ?_, fun q u f' b hb hshared => ?_⟩
    · by_cases hqu : q = p ∧ u = v
      · rw [hqu.1, hqu.2, Plain.setCell_self, hentry, he, Option.map_some, toCell,
          if_neg (by simp [hs]), hself]
      · rw [Plain.setCell_of_ne _ _ hqu, hentry, h.cell]
        cases hq : m.entry q u with
        | none => rfl
        | some e => rw [Option.map_some, Option.map_some, toCell_congr (hne q u e.1 e.2 hqu hq)]
    · rw [hentry] at hb
      have hqu : ¬ (q = p ∧ u = v) := by
        rintro ⟨rfl, rfl⟩
        rw [he] at hb
        cases hb
        rw [hs] at hshared
        cases hshared
      exact (h.object q u f' b hb hshared).trans (hne q u f' b hqu hb).symm

/-- The copy is seen as what was there. -/
lemma Represents.copy {p : π} {v : ν} {f f' : φ} {a : Flags} (hm : m.Sound) (h : m.Represents r)
    (he : m.entry p v = some (f, a)) (honWrite : a.onWrite = true)
    (hsets : m.Sets m' p v (some (f', a.copied))) (hcopy : m'.content f' = m.content f)
    (hkeeps : m.Keeps m') : m'.Represents r := by
  have hs : a.shared = false := by
    by_contra hc
    have hoff := hm.library p v f a he (by simpa using hc)
    rw [hoff] at honWrite
    cases honWrite
  refine ⟨fun q u => ?_, fun q u f₁ b hb hshared => ?_⟩
  · by_cases hqu : q = p ∧ u = v
    · rw [hqu.1, hqu.2, h.cell, he, hsets.1, Option.map_some, Option.map_some, toCell, toCell,
        Flags.copied_shared, hcopy, a.copied_stores honWrite, hs]
      rfl
    · rw [hsets.2 q u hqu, h.cell, hkeeps.map_toCell]
  · rcases hsets.cases hb with ⟨-, -, -, rfl⟩ | ⟨-, hold⟩
    · rw [Flags.copied_shared, hs] at hshared
      cases hshared
    · exact (h.object q u f₁ b hold hshared).trans (hkeeps q u f₁ b hold).symm

lemma Represents.dup {p c : π} {v : ν} {f : φ} {a : Flags} (h : m.Represents r)
    (he : m.entry p v = some (f, a)) (hparent : m'.entry p v = some (f, a.dup))
    (hchild : m'.entry c v = some (f, a.dup))
    (hother : ∀ q u, ¬ (q = p ∧ u = v) → ¬ (q = c ∧ u = v) → m'.entry q u = m.entry q u)
    (hkeeps : m.Keeps m') : m'.Represents (r.exec (.dup p c v)) := by
  -- the marks make no difference to what is seen
  have hcell : m'.toCell (f, a.dup) = m.toCell (f, a) := by
    rw [toCell, toCell, hkeeps p v f a he]
    simp only [Flags.dup_shared, Flags.dup_stores]
  rw [Plain.exec]
  refine ⟨fun q u => ?_, fun q u f' b hb hshared => ?_⟩
  · by_cases hc : q = c ∧ u = v
    · rw [hc.1, hc.2, Plain.setCell_self, hchild, h.cell, he, Option.map_some,
        Option.map_some, hcell]
    · rw [Plain.setCell_of_ne _ _ hc]
      by_cases hp : q = p ∧ u = v
      · rw [hp.1, hp.2, hparent, h.cell, he, Option.map_some, Option.map_some, hcell]
      · rw [hother q u hp hc, h.cell, hkeeps.map_toCell]
  · have hobj : b.shared = true → (f', b) = (f, a.dup) → r.object f' = m'.content f' := by
      rintro hs hfb
      cases hfb
      rw [Flags.dup_shared] at hs
      exact (h.object p v f a he hs).trans (hkeeps p v f a he).symm
    change r.object f' = _
    by_cases hp : q = p ∧ u = v
    · rw [hp.1, hp.2, hparent] at hb
      exact hobj hshared (Option.some.inj hb).symm
    · by_cases hc : q = c ∧ u = v
      · rw [hc.1, hc.2, hchild] at hb
        exact hobj hshared (Option.some.inj hb).symm
      · rw [hother q u hp hc] at hb
        exact (h.object q u f' b hb hshared).trans (hkeeps q u f' b hb).symm

lemma Represents.outside {g : φ → δ} (h : m.Represents r) (hentry : m'.entry = m.entry)
    (hshared : ∀ q u f a, m.entry q u = some (f, a) → a.shared = true → m'.content f = g f)
    (hown : ∀ q u f a, m.entry q u = some (f, a) → a.shared = false → m'.content f = m.content f) :
    m'.Represents (r.exec (.outside g)) := by
  refine ⟨fun q u => ?_, fun q u f b he hb => ?_⟩
  · rw [hentry, Plain.exec, h.cell]
    cases he : m.entry q u with
    | none => rfl
    | some e =>
        rw [Option.map_some, Option.map_some, toCell, toCell]
        by_cases hs : e.2.shared = true
        · simp only [if_pos hs]
        · simp only [hown q u e.1 e.2 he (by simpa using hs)]
  · rw [hentry] at he
    exact (hshared q u f b he hb).symm

/-- **Every step of the frames is one of the plain memory.** -/
theorem Represents.step (hm : m.Sound) (h : m.Represents r) (hs : Step m m' act) :
    m'.Represents (r.exec act) := by
  cases hs with
  | idle hentry hkeeps => exact h.keeps hkeeps (fun q u => .inr ⟨by rw [hentry], rfl⟩) rfl
  | touch hown _ hsets hnew hkeeps => exact hnew ▸ h.sets hkeeps hsets hown
  | link hshared _ _ hsets hnew hkeeps => exact hnew ▸ h.link hkeeps hsets hshared
  | store he hwrite hentry hself hrest => exact h.store hm he hwrite hentry hself hrest
  | copy he honWrite _ hsets hcopy hkeeps => exact h.copy hm he honWrite hsets hcopy hkeeps
  | dup he hparent hchild hother hkeeps => exact h.dup he hparent hchild hother hkeeps
  | @drop P hgone hrest hkeeps =>
      refine h.keeps hkeeps (fun q u => ?_) rfl
      by_cases hP : P q u
      · exact .inl ⟨hgone q u hP, if_pos hP⟩
      · exact .inr ⟨hrest q u hP, if_neg hP⟩
  | outside hentry hshared hown => exact h.outside hentry hshared hown

/-- A run, with what happens in it. -/
inductive Run : Frames π ν φ δ → List (Act π ν φ δ) → Frames π ν φ δ → Prop
  | nil {m : Frames π ν φ δ} : Run m [] m
  | cons {m m₁ m' : Frames π ν φ δ} {act : Act π ν φ δ} {acts : List (Act π ν φ δ)}
      (hs : Step m m₁ act) (hr : Run m₁ acts m') : Run m (act :: acts) m'

/-- **Copy on write is copying.** -/
theorem Run.represents {acts : List (Act π ν φ δ)} (h : Run m acts m') (hm : m.Sound)
    (hr : m.Represents r) : m'.Sound ∧ m'.Represents (acts.foldl Plain.exec r) := by
  induction h generalizing r with
  | nil => exact ⟨hm, hr⟩
  | cons hs _ ih => exact ih (hm.step hs) (hr.step hm hs)

end

end Frames

end CopyOnWrite
