import MosRv.Fs.Format
import MosRv.Fs.Tree
import MosRv.Lib.Spread

/-!
# A directory of the host, laid out on a disk

`View.Laid v d n es m m'` describes what writing the entries `es` of a directory leaves on the disk:
they are the entries of the directory `d` from entry `n` on, and what was needed for them are the
blocks from `m` up to `m'`, in the order in which the blocks were handed out.  A file is laid out as
`View.FileAt` says.  The entry itself comes first, and with it a block for every sixteenth entry;
then comes what is in the file or directory; then come the entries after it.

The description is about the disk only, not about how it was written.  No block is in two slots
(`Laid.spread`), since the blocks are numbers from a counter.
-/

namespace MosRv.Fs

open View

/-! ## Places -/

/-- The number of blocks for the entries of a directory. -/
def blocksOf (n : ℕ) : ℕ := (n + FILE2BLK - 1) / FILE2BLK

/-- The number of blocks handed out for entry `n` of a directory: none, its block, or its block and
the indirect block. -/
def slotCost (n : ℕ) : ℕ :=
  if n % FILE2BLK = 0 then if n / FILE2BLK = NDIRECT then 2 else 1 else 0

/-- The number of blocks for the bytes of a file. -/
def chunks (data : List Byte) : ℕ := (data.length + BY2BLK - 1) / BY2BLK

/-- Where block `i` of a file is whose blocks are handed out from `m` on: the indirect block is
handed out when the block after the direct ones has been. -/
def fileBlock (m i : ℕ) : ℕ := m + i + if NDIRECT < i then 1 else 0

namespace View

/-- Entry `k` of a directory. -/
def slot (v : View) (d : FileRef) (k : ℕ) : FileRef :=
  .entry (v.num d (.of (k / FILE2BLK))) (k % FILE2BLK)

/-- There is the block for entry `n`, which is handed out for it if it is the first one in the
block. -/
structure SlotAt (v : View) (d : FileRef) (n m m' : ℕ) : Prop where
  next : m' = m + slotCost n
  small : n / FILE2BLK < NINDIRECT
  block : n % FILE2BLK = 0 → v.num d (.of (n / FILE2BLK)) = m
  index : n % FILE2BLK = 0 → n / FILE2BLK = NDIRECT → v.num d .indirect = m + 1

/-- There are no entries from `n` on. -/
structure DirEnd (v : View) (d : FileRef) (n : ℕ) : Prop where
  size : (v.field d F_SIZE).toNat = BY2BLK * blocksOf n
  small : blocksOf n ≤ NINDIRECT
  rest : ∀ i, blocksOf n ≤ i → i < NINDIRECT → v.num d (.of i) = 0
  noIndex : blocksOf n ≤ NDIRECT → v.num d .indirect = 0
  unnamed : ∀ k, n ≤ k → k < FILE2BLK * blocksOf n → ¬ v.Named (v.slot d k)

/-- A file with its bytes. -/
structure FileAt (v : View) (f : FileRef) (data : List Byte) (m m' : ℕ) : Prop where
  next : m' = fileBlock m (chunks data)
  small : chunks data ≤ NINDIRECT
  type : v.field f F_TYPE = FTYPE_REG
  size : (v.field f F_SIZE).toNat = data.length
  block : ∀ i < chunks data, v.num f (.of i) = fileBlock m i
  rest : ∀ i, chunks data ≤ i → i < NINDIRECT → v.num f (.of i) = 0
  index : v.num f .indirect = if NDIRECT < chunks data then m + NDIRECT + 1 else 0
  byte : ∀ k, (hk : k < data.length) →
    (v (fileBlock m (k / BY2BLK))).byte (k % BY2BLK) = data[k]

/-- **The entries of a directory, laid out.** -/
inductive Laid (v : View) : FileRef → ℕ → Entries → ℕ → ℕ → Prop
  | nil {d : FileRef} {n m : ℕ} (hend : v.DirEnd d n) : v.Laid d n .nil m m
  | file {d : FileRef} {n m m₁ m₂ m₃ : ℕ} {name data : List Byte} {rest : Entries}
      (hslot : v.SlotAt d n m m₁) (hname : v.name (v.slot d n) = name)
      (hfile : v.FileAt (v.slot d n) data m₁ m₂) (hrest : v.Laid d (n + 1) rest m₂ m₃) :
      v.Laid d n (.file name data rest) m m₃
  | dir {d : FileRef} {n m m₁ m₂ m₃ : ℕ} {name : List Byte} {inner rest : Entries}
      (hslot : v.SlotAt d n m m₁) (hname : v.name (v.slot d n) = name)
      (hdir : v.IsDir (v.slot d n)) (hinner : v.Laid (v.slot d n) 0 inner m₁ m₂)
      (hrest : v.Laid d (n + 1) rest m₂ m₃) : v.Laid d n (.dir name inner rest) m m₃

end View

section

variable {v : View} {d f : FileRef} {n m m' i : ℕ} {data : List Byte} {es : Entries} {sl : Slot}

/-! ## Counting -/

lemma blocksOf_of_mod (h : n % FILE2BLK ≠ 0) : blocksOf n = n / FILE2BLK + 1 := by
  simp only [blocksOf, FILE2BLK] at *
  omega

lemma blocksOf_of_dvd (h : n % FILE2BLK = 0) : blocksOf n = n / FILE2BLK := by
  simp only [blocksOf, FILE2BLK] at *
  omega

lemma blocksOf_succ : blocksOf (n + 1) = n / FILE2BLK + 1 := by
  simp only [blocksOf, FILE2BLK]
  omega

lemma blocksOf_le_succ : blocksOf n ≤ blocksOf (n + 1) := by
  simp only [blocksOf, FILE2BLK]
  omega

/-- The entry is in one of the blocks. -/
lemma lt_blocksOf {k : ℕ} : k / FILE2BLK < blocksOf n ↔ k < FILE2BLK * blocksOf n := by
  simp only [blocksOf, FILE2BLK]
  omega

lemma slotCost_of_mod (h : n % FILE2BLK ≠ 0) : slotCost n = 0 := if_neg h

lemma fileBlock_lt {k : ℕ} (h : i < k) : fileBlock m i < fileBlock m k := by
  rw [fileBlock, fileBlock]
  split_ifs <;> omega

lemma le_fileBlock : m ≤ fileBlock m i := by
  rw [fileBlock]
  omega

lemma fileBlock_inj {k : ℕ} (h : fileBlock m i = fileBlock m k) : i = k := by
  rw [fileBlock, fileBlock] at h
  split_ifs at h <;> omega

lemma fileBlock_ne_index : fileBlock m i ≠ m + NDIRECT + 1 := by
  rw [fileBlock]
  split_ifs <;> omega

/-- A file has a block for each of its bytes. -/
lemma div_lt_chunks {k : ℕ} (h : k < data.length) : k / BY2BLK < chunks data := by
  simp only [chunks, BY2BLK]
  omega

lemma slot_entry {j : ℕ} (hj : j < FILE2BLK) :
    v.slot d (FILE2BLK * i + j) = .entry (v.num d (.of i)) j := by
  have hdiv : (FILE2BLK * i + j) / FILE2BLK = i := by
    simp only [FILE2BLK] at *
    omega
  have hmod : (FILE2BLK * i + j) % FILE2BLK = j := by
    simp only [FILE2BLK] at *
    omega
  rw [View.slot, hdiv, hmod]

/-! ## Slots -/

/-- Every slot is the one of a block, or the one of the indirect block. -/
lemma Slot.ok_iff : sl.Ok ↔ sl = .indirect ∨ ∃ i < NINDIRECT, sl = .of i := by
  refine or_congr_right ⟨fun h => ?_, ?_⟩
  · cases sl with
    | direct i => exact ⟨i, h.trans (by decide), (if_pos h).symm⟩
    | indirect => exact h.elim
    | index i => exact ⟨i, h.2, (if_neg (not_lt.mpr h.1)).symm⟩
  · rintro ⟨i, hi, rfl⟩
    exact Slot.data_of hi

/-- The slots that entries before `n` have not been given blocks for. -/
def later (n : ℕ) : Set Slot :=
  {sl | (∃ i, blocksOf n ≤ i ∧ i < NINDIRECT ∧ sl = .of i) ∨
    (blocksOf n ≤ NDIRECT ∧ sl = .indirect)}

/-- The slots of the blocks that are handed out for entry `n`. -/
def newSlots (n : ℕ) : Set Slot :=
  {sl | n % FILE2BLK = 0 ∧ (sl = .of (n / FILE2BLK) ∨ (n / FILE2BLK = NDIRECT ∧ sl = .indirect))}

lemma mem_later_zero : sl ∈ later 0 ↔ sl.Ok := by
  rw [Slot.ok_iff]
  constructor
  · rintro (⟨i, -, hi, rfl⟩ | ⟨-, rfl⟩)
    · exact .inr ⟨i, hi, rfl⟩
    · exact .inl rfl
  · rintro (rfl | ⟨i, hi, rfl⟩)
    · exact .inr ⟨Nat.zero_le _, rfl⟩
    · exact .inl ⟨i, Nat.zero_le _, hi, rfl⟩

lemma later_subset : later n ⊆ newSlots n ∪ later (n + 1) := by
  have hsucc := @blocksOf_succ n
  by_cases hmod : n % FILE2BLK = 0
  · have hn := blocksOf_of_dvd hmod
    rintro sl (⟨i, hle, hi, rfl⟩ | ⟨hle, rfl⟩)
    · by_cases heq : i = n / FILE2BLK
      · exact .inl ⟨hmod, .inl (by rw [heq])⟩
      · exact .inr (.inl ⟨i, by omega, hi, rfl⟩)
    · by_cases heq : n / FILE2BLK = NDIRECT
      · exact .inl ⟨hmod, .inr ⟨heq, rfl⟩⟩
      · exact .inr (.inr ⟨by omega, rfl⟩)
  · have hn := blocksOf_of_mod hmod
    rintro sl (⟨i, hle, hi, rfl⟩ | ⟨hle, rfl⟩)
    · exact .inr (.inl ⟨i, by omega, hi, rfl⟩)
    · exact .inr (.inr ⟨by omega, rfl⟩)

/-! ## No block is in two slots -/

/-- The number in a slot of a file. -/
def View.numOf (v : View) (p : FileRef × Slot) : ℕ := v.num p.1 p.2

/-- The files of the entries from `n` on, with those below them. -/
def View.files (v : View) : FileRef → ℕ → Entries → Set FileRef
  | _, _, .nil => ∅
  | d, n, .file _ _ rest => insert (v.slot d n) (v.files d (n + 1) rest)
  | d, n, .dir _ inner rest =>
      insert (v.slot d n) (v.files (v.slot d n) 0 inner ∪ v.files d (n + 1) rest)

/-- The slots that get blocks when the entries from `n` on are written. -/
def View.holders (v : View) (d : FileRef) (n : ℕ) (es : Entries) : Set (FileRef × Slot) :=
  {p | (p.1 = d ∧ p.2 ∈ later n) ∨ (p.1 ∈ v.files d n es ∧ p.2.Ok)}

lemma View.SlotAt.spread (h : v.SlotAt d n m m') :
    Spread v.numOf {p | p.1 = d ∧ p.2 ∈ newSlots n} m m' := by
  by_cases hmod : n % FILE2BLK = 0
  · have hblock : v.numOf (d, .of (n / FILE2BLK)) = m := h.block hmod
    by_cases hidx : n / FILE2BLK = NDIRECT
    · have hm' : m' = m + 1 + 1 := by rw [h.next, slotCost, if_pos hmod, if_pos hidx]
      have hindex : v.numOf (d, .indirect) = m + 1 := h.index hmod hidx
      rw [hm']
      refine ((Spread.single hblock).append (Spread.single hindex)).subset ?_
      rintro ⟨g, sl⟩ ⟨rfl, -, rfl | ⟨-, rfl⟩⟩
      · exact .inl rfl
      · exact .inr rfl
    · have hm' : m' = m + 1 := by rw [h.next, slotCost, if_pos hmod, if_neg hidx]
      rw [hm']
      refine (Spread.single hblock).subset ?_
      rintro ⟨g, sl⟩ ⟨rfl, -, rfl | ⟨hidx', -⟩⟩
      · rfl
      · exact absurd hidx' hidx
  · have hm' : m' = m := by rw [h.next, slotCost_of_mod hmod, Nat.add_zero]
    rw [hm']
    exact Spread.none fun p hp => absurd hp.2.1 hmod

lemma View.FileAt.spread (h : v.FileAt f data m m') :
    Spread v.numOf {p | p.1 = f ∧ p.2.Ok} m m' := by
  -- the indirect block comes after the eleventh block
  have hindex : NDIRECT < chunks data → m + NDIRECT + 1 < m' := by
    intro hlt
    rw [h.next, fileBlock, if_pos hlt]
    omega
  have hnum : ∀ i < NINDIRECT, v.num f (.of i) ≠ 0 → i < chunks data ∧
      v.num f (.of i) = fileBlock m i := by
    intro i hi hne
    have hlt : i < chunks data := by
      by_contra hge
      exact hne (h.rest i (not_lt.mp hge) hi)
    exact ⟨hlt, h.block i hlt⟩
  have hind : v.num f .indirect ≠ 0 → NDIRECT < chunks data ∧
      v.num f .indirect = m + NDIRECT + 1 := by
    intro hne
    rw [h.index] at hne ⊢
    split_ifs at hne ⊢ with hlt
    · exact ⟨hlt, rfl⟩
    · exact absurd rfl hne
  refine ⟨h.next ▸ le_fileBlock, ?_, ?_⟩
  · rintro ⟨g, sl⟩ ⟨rfl, hsl⟩ hne
    obtain rfl | ⟨i, hi, rfl⟩ := Slot.ok_iff.mp hsl
    · obtain ⟨hlt, heq⟩ := hind hne
      have := hindex hlt
      change m ≤ v.num g .indirect ∧ v.num g .indirect < m'
      rw [heq]
      omega
    · obtain ⟨hlt, heq⟩ := hnum i hi hne
      change m ≤ v.num g (.of i) ∧ v.num g (.of i) < m'
      rw [heq, h.next]
      exact ⟨le_fileBlock, fileBlock_lt hlt⟩
  · rintro ⟨g, sl⟩ ⟨rfl, hsl⟩ ⟨g', sl'⟩ ⟨hg, hsl'⟩ hne heq
    obtain rfl : g' = g := hg
    change v.num g' sl = v.num g' sl' at heq
    have hne' : v.num g' sl' ≠ 0 := heq ▸ hne
    obtain rfl | ⟨i, hi, rfl⟩ := Slot.ok_iff.mp hsl
    · obtain rfl | ⟨k, hk, rfl⟩ := Slot.ok_iff.mp hsl'
      · rfl
      · rw [(hind hne).2, (hnum k hk hne').2] at heq
        exact absurd heq.symm fileBlock_ne_index
    · obtain rfl | ⟨k, hk, rfl⟩ := Slot.ok_iff.mp hsl'
      · rw [(hind hne').2, (hnum i hi hne).2] at heq
        exact absurd heq fileBlock_ne_index
      · rw [(hnum i hi hne).2, (hnum k hk hne').2] at heq
        rw [fileBlock_inj heq]

/-- **What writing the entries hands out is in one slot each.** -/
lemma View.Laid.spread (h : v.Laid d n es m m') : Spread v.numOf (v.holders d n es) m m' := by
  induction h with
  | @nil d n m hend =>
      refine Spread.none ?_
      rintro ⟨g, sl⟩ (⟨rfl, ⟨i, hle, hi, rfl⟩ | ⟨hle, rfl⟩⟩ | ⟨hmem, -⟩)
      · exact hend.rest i hle hi
      · exact hend.noIndex hle
      · exact absurd hmem (Set.notMem_empty g)
  | @file d n m m₁ m₂ m₃ name data rest hslot hname hfile hrest ih =>
      refine ((hslot.spread.append hfile.spread).append ih).subset ?_
      rintro ⟨g, sl⟩ (⟨rfl, hsl⟩ | ⟨rfl | hmem, hsl⟩)
      · rcases later_subset hsl with hnew | hlater
        · exact .inl (.inl ⟨rfl, hnew⟩)
        · exact .inr (.inl ⟨rfl, hlater⟩)
      · exact .inl (.inr ⟨rfl, hsl⟩)
      · exact .inr (.inr ⟨hmem, hsl⟩)
  | @dir d n m m₁ m₂ m₃ name inner rest hslot hname hdir hinner hrest ihinner ihrest =>
      refine ((hslot.spread.append ihinner).append ihrest).subset ?_
      rintro ⟨g, sl⟩ (⟨rfl, hsl⟩ | ⟨rfl | hmem | hmem, hsl⟩)
      · rcases later_subset hsl with hnew | hlater
        · exact .inl (.inl ⟨rfl, hnew⟩)
        · exact .inr (.inl ⟨rfl, hlater⟩)
      · exact .inl (.inr (.inl ⟨rfl, mem_later_zero.mpr hsl⟩))
      · exact .inl (.inr (.inr ⟨hmem, hsl⟩))
      · exact .inr (.inr ⟨hmem, hsl⟩)

end

end MosRv.Fs
