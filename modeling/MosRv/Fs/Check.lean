import MosRv.Fs.Init

/-!
# Checking a disk

Ownership is decidable for a file system with few files: given a list with all its files, none with
an indirect block, there are finitely many slots to look at.  `View.Checks` is such a check, by
evaluation, and `View.Checks.live` and `wellFormed_of_checks` say that it is sound.
-/

namespace MosRv.Fs

open View

/-- The files with names are in the list, none has an indirect block, and the blocks that they own
pass the check. -/
structure View.Checks (files : List FileRef) (v : View) : Prop where
  root : FileRef.root ∈ files
  flat : ∀ f ∈ files, v.num f .indirect = 0
  closed : ∀ d ∈ files, v.IsDir d → ∀ i < NDIRECT, v.num d (.direct i) ≠ 0 → ∀ j < FILE2BLK,
    v.Named (.entry (v.num d (.direct i)) j) → .entry (v.num d (.direct i)) j ∈ files
  range : ∀ f ∈ files, ∀ i < NDIRECT, v.num f (.direct i) ≠ 0 →
    v.lastReserved < v.num f (.direct i) ∧ v.num f (.direct i) < v.nblocks ∧
      ¬ v.Free (v.num f (.direct i))
  inj : ∀ f ∈ files, ∀ g ∈ files, ∀ i < NDIRECT, ∀ j < NDIRECT, v.num f (.direct i) ≠ 0 →
    v.num f (.direct i) = v.num g (.direct j) → f = g ∧ i = j

instance (v : View) (f : FileRef) : Decidable (v.IsDir f) := inferInstanceAs (Decidable (_ = _))

instance (v : View) (f : FileRef) : Decidable (v.Named f) := inferInstanceAs (Decidable (_ ≠ _))

set_option synthInstance.maxSize 256 in
instance (files : List FileRef) (v : View) : Decidable (v.Checks files) :=
  decidable_of_iff (_ ∧ _ ∧ _ ∧ _ ∧ _)
    ⟨fun h => ⟨h.1, h.2.1, h.2.2.1, h.2.2.2.1, h.2.2.2.2⟩, fun h => ⟨h.1, h.2, h.3, h.4, h.5⟩⟩

section

variable {O : Set FileRef} {files : List FileRef} {v : View} {f g : FileRef} {sl sl' : Slot}

/-- A slot with a block is a direct one. -/
lemma View.Checks.direct (h : v.Checks files) (hf : f ∈ files) (hsl : sl.Ok)
    (hne : v.num f sl ≠ 0) :
    ∃ i, sl = .direct i ∧ i < NDIRECT := by
  cases sl with
  | direct i => exact ⟨i, rfl, hsl.resolve_left nofun⟩
  | indirect => exact absurd (h.flat f hf) hne
  | index i => exact absurd (num_index_eq_zero (h.flat f hf)) hne

/-- The list has all the files that have names or are open. -/
lemma View.Checks.live (h : v.Checks files) (hO : ∀ f ∈ O, f ∈ files) (hf : v.Live O f) :
    f ∈ files := by
  induction hf with
  | root => exact h.root
  | entry hd hdir hsl hb hj hn ih =>
      obtain ⟨i, rfl, hi⟩ := h.direct ih hsl.ok hb
      exact hn.elim (h.closed _ ih hdir i hi hb _ hj) (hO _)

/-- The files own blocks in use. -/
lemma View.Checks.owned (h : v.Checks files) (hO : ∀ f ∈ O, f ∈ files) (hf : v.Live O f)
    (hsl : sl.Ok) (hne : v.num f sl ≠ 0) :
    v.lastReserved < v.num f sl ∧ v.num f sl < v.nblocks ∧ ¬ v.Free (v.num f sl) := by
  obtain ⟨i, rfl, hi⟩ := h.direct (h.live hO hf) hsl hne
  exact h.range f (h.live hO hf) i hi hne

/-- No block is owned twice. -/
lemma View.Checks.eq_of_num (h : v.Checks files) (hO : ∀ f ∈ O, f ∈ files) (hf : v.Live O f)
    (hg : v.Live O g) (hsl : sl.Ok) (hsl' : sl'.Ok) (hne : v.num f sl ≠ 0)
    (heq : v.num f sl = v.num g sl') : f = g ∧ sl = sl' := by
  obtain ⟨i, rfl, hi⟩ := h.direct (h.live hO hf) hsl hne
  obtain ⟨j, rfl, hj⟩ := h.direct (h.live hO hg) hsl' (heq ▸ hne)
  obtain ⟨hfg, rfl⟩ := h.inj f (h.live hO hf) g (h.live hO hg) i hi j hj hne heq
  exact ⟨hfg, rfl⟩

/-- A disk that passes the check is well formed. -/
lemma wellFormed_of_checks (files : List FileRef) (h : v.Checks files)
    (hmagic : v 1 S_MAGIC = FS_MAGIC)
    (hsmall : v.nblocks ≤ MAXBLOCKS) (hres : ∀ b < v.nblocks, v.Free b → v.lastReserved < b)
    (hfits : v.lastReserved < v.nblocks) (hroot : v.field .root F_DIR = 0#32) : WellFormed v where
  own := ⟨hmagic, hsmall, hres, fun _ _ => h.owned nofun, fun _ _ _ _ => h.eq_of_num nofun⟩
  fits := hfits
  root := hroot

end

end MosRv.Fs
