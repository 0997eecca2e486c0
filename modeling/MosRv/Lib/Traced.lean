import Mathlib.Data.Set.Basic
import Mathlib.Logic.Function.Basic

/-!
# Memory with a trace of its accesses

A memory that remembers which cells have been read or written.  `Within S` says that all of them are
in `S`, and `Grew T` that only places in `T` have been accessed since some earlier state; an access
can never be undone.
-/

/-- Cells of type `β`, and the places of all accesses so far. -/
structure Traced (ι β : Type) where
  mem : ι → β
  touched : List ι

namespace Traced

variable {ι β : Type} {m : Traced ι β} {i : ι} {v : β} {S T : Set ι}
  {m' m'' : Traced ι β}

/-- A cell is read. -/
def touch (m : Traced ι β) (i : ι) : Traced ι β := { m with touched := i :: m.touched }

/-- A cell is written. -/
def store [DecidableEq ι] (m : Traced ι β) (i : ι) (v : β) : Traced ι β :=
  { mem := Function.update m.mem i v, touched := i :: m.touched }

/-- All accesses have been in `S`. -/
def Within (m : Traced ι β) (S : Set ι) : Prop := ∀ i ∈ m.touched, i ∈ S

/-- From `m` to `m'` there have been accesses in `T` only. -/
structure Grew (T : Set ι) (m m' : Traced ι β) : Prop where
  kept : ∀ i ∈ m.touched, i ∈ m'.touched
  new : ∀ i ∈ m'.touched, i ∈ m.touched ∨ i ∈ T

lemma Grew.refl (T : Set ι) (m : Traced ι β) : Grew T m m := ⟨fun _ h => h, fun _ h => .inl h⟩

lemma Grew.trans (h : Grew T m m') (h' : Grew T m' m'') : Grew T m m'' where
  kept := fun i hi => h'.kept i (h.kept i hi)
  new := by
    intro i hi
    obtain hi | hi := h'.new i hi
    · exact h.new i hi
    · exact .inr hi

lemma Grew.within (h : Grew T m m') (hT : T ⊆ S) (hm : m.Within S) : m'.Within S := by
  intro i hi
  obtain hi | hi := h.new i hi
  · exact hm i hi
  · exact hT hi

lemma Grew.cons (h : Grew T m m') (hi : i ∈ T) (htouched : m''.touched = i :: m'.touched) :
    Grew T m m'' where
  kept := by
    intro j hj
    rw [htouched]
    exact List.mem_cons_of_mem i (h.kept j hj)
  new := by
    intro j hj
    rw [htouched, List.mem_cons] at hj
    obtain rfl | hj := hj
    · exact .inr hi
    · exact h.new j hj

lemma Grew.touch (h : Grew T m m') (hi : i ∈ T) : Grew T m (m'.touch i) := h.cons hi rfl

@[simp] lemma touch_mem : (m.touch i).mem = m.mem := rfl

@[simp] lemma touch_touched : (m.touch i).touched = i :: m.touched := rfl

@[simp] lemma within_touch : (m.touch i).Within S ↔ i ∈ S ∧ m.Within S := by
  simp [Within]

variable [DecidableEq ι]

lemma Grew.store (h : Grew T m m') (hi : i ∈ T) (v : β) : Grew T m (m'.store i v) := h.cons hi rfl

@[simp] lemma store_mem : (m.store i v).mem = Function.update m.mem i v := rfl

@[simp] lemma store_touched : (m.store i v).touched = i :: m.touched := rfl

@[simp] lemma within_store : (m.store i v).Within S ↔ i ∈ S ∧ m.Within S := by
  simp [Within]

end Traced
