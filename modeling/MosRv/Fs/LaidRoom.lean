import MosRv.Fs.LaidTree

/-!
# Writing a directory, step by step

A file grows by blocks: `View.Holder` is what its block numbers are like, and `View.linked` what
`save_block_link` makes of the disk.  `View.DirAt` is the state of a directory that `n` entries have
been written to: the slots of its blocks, its names, and that what comes next is still blank.

What is written for the entries from `n` on goes to places that were blank or belong to the
directory (`View.Zone`), and what is written for one entry to the entry itself and to new blocks
(`FileRef.Zone`).  So what was laid out before stays as it is (`Laid.congr`), and so does the rest
of the directory (`DirAt.filled`).
-/

namespace MosRv.Fs

open View

/-- Nothing changes but at some places. -/
def View.Only (T : ℕ → ℕ → Prop) (v v' : View) : Prop := ∀ b i, ¬ T b i → v' b i = v b i

/-- The blocks from `m` on are zero. -/
def View.ZeroFrom (v : View) (m : ℕ) : Prop := ∀ b, m ≤ b → ∀ i, v b i = 0#32

section

variable {v v' v'' : View} {d e f : FileRef} {n m m' i nb : ℕ} {es : Entries} {sl : Slot}
variable {T T' : ℕ → ℕ → Prop} {data : List Byte}

lemma View.Only.refl : View.Only T v v := fun _ _ _ => rfl

lemma View.Only.mono (h : View.Only T v v') (hsub : ∀ b i, T b i → T' b i) : View.Only T' v v' :=
  fun b i hn => h b i fun hT => hn (hsub b i hT)

lemma View.Only.trans (h : View.Only T v v') (h' : View.Only T v' v'') : View.Only T v v'' :=
  fun b i hn => (h' b i hn).trans (h b i hn)

/-! ## What the description of a disk depends on -/

/-- The numbers are in the `struct File` and in its indirect block. -/
lemma num_congr (hfield : ∀ k, F_DIRECT ≤ k → k ≤ F_INDIRECT → v'.field f k = v.field f k)
    (hind : v.num f .indirect ≠ 0 → ∀ i, v' (v.num f .indirect) i = v (v.num f .indirect) i)
    (hsl : sl.Ok) : v'.num f sl = v.num f sl := by
  have hindirect := hfield F_INDIRECT (by decide) le_rfl
  cases sl with
  | direct i =>
      have hi : i < NDIRECT := hsl.resolve_left nofun
      rw [View.num, View.num, hfield (F_DIRECT + i) (Nat.le_add_right _ _)]
      simp only [NDIRECT] at hi
      simp only [F_DIRECT, F_INDIRECT]
      omega
  | indirect => rw [View.num, View.num, hindirect]
  | index i =>
      rw [View.num, View.num, hindirect]
      split_ifs with h0
      · rfl
      · have hne : v.num f .indirect ≠ 0 := fun hz => h0 (BitVec.eq_of_toNat_eq hz)
        have := hind hne i
        rw [View.num] at this
        rw [this]

/-- The name is in the first words of an entry. -/
lemma name_congr (h : ∀ k < 32, v' e.block (e.word + k) = v e.block (e.word + k)) :
    v'.name e = v.name e := by
  rw [View.name, View.name]
  apply str_congr
  intro k hk
  have hdiv : (4 * e.word + k) / 4 = e.word + k / 4 := by omega
  simp only [MAXNAMELEN] at hk
  rw [Block.byte, Block.byte, hdiv, h _ (by omega)]

lemma named_congr (h : v' e.block e.word = v e.block e.word) : v'.Named e ↔ v.Named e := by
  have hdiv : 4 * e.word / 4 = e.word := Nat.mul_div_cancel_left _ (by decide)
  rw [View.Named, View.Named, Block.byte, Block.byte, hdiv, h]

lemma slot_congr (h : v'.num d (.of (n / FILE2BLK)) = v.num d (.of (n / FILE2BLK))) :
    v'.slot d n = v.slot d n := by
  rw [View.slot, View.slot, h]

lemma slot_word : (v.slot d n).word = 64 * (n % FILE2BLK) := rfl

lemma slot_block : (v.slot d n).block = v.num d (.of (n / FILE2BLK)) := rfl

/-- A file depends on its entry and on the blocks that it was given. -/
lemma View.FileAt.congr (h : v.FileAt f data m m')
    (hent : ∀ i, f.word ≤ i → i < f.word + 64 → v' f.block i = v f.block i)
    (hnew : ∀ b, m ≤ b → b < m' → ∀ i, v' b i = v b i) : v'.FileAt f data m m' := by
  have hfield : ∀ k < 64, v'.field f k = v.field f k :=
    fun k hk => hent _ (Nat.le_add_right _ _) (Nat.add_lt_add_left hk _)
  have hnum : ∀ sl : Slot, sl.Ok → v'.num f sl = v.num f sl := by
    intro sl hsl
    refine num_congr (fun k _ hk => hfield k (hk.trans_lt (by decide))) (fun hne i => ?_) hsl
    obtain ⟨hlo, hhi⟩ := h.spread.range (f, .indirect) ⟨rfl, Slot.ok_indirect⟩ hne
    exact hnew _ hlo hhi i
  have hlt : ∀ i < chunks data, fileBlock m i < m' := fun i hi => h.next ▸ fileBlock_lt hi
  refine ⟨h.next, h.small, ?_, ?_, fun i hi => ?_, fun i hle hi => ?_, ?_, fun k hk => ?_⟩
  · rw [hfield _ (by decide), h.type]
  · rw [hfield _ (by decide), h.size]
  · rw [hnum _ (Slot.data_of (hi.trans_le h.small)).ok, h.block i hi]
  · rw [hnum _ (Slot.data_of hi).ok, h.rest i hle hi]
  · rw [hnum _ Slot.ok_indirect, h.index]
  · rw [Block.byte, hnew _ le_fileBlock (hlt _ (div_lt_chunks hk)), ← Block.byte, h.byte k hk]

lemma View.SlotAt.congr (h : v.SlotAt d n m m')
    (hblock : v'.num d (.of (n / FILE2BLK)) = v.num d (.of (n / FILE2BLK)))
    (hindex : n / FILE2BLK = NDIRECT → v'.num d .indirect = v.num d .indirect) :
    v'.SlotAt d n m m' where
  next := h.next
  small := h.small
  block hmod := hblock.trans (h.block hmod)
  index hmod heq := (hindex heq).trans (h.index hmod heq)

/-- An entry sits in the block that the entry before it is in, or in the one that was handed out for
it. -/
lemma View.SlotAt.entry_congr (h : v.SlotAt d n m m') (hm : m' ≤ i)
    (hnew : ∀ b, m ≤ b → b < i → ∀ j, v' b j = v b j)
    (hlast : n % FILE2BLK ≠ 0 → ∀ j, 64 * (n % FILE2BLK) ≤ j →
      v' (v.num d (.of (n / FILE2BLK))) j = v (v.num d (.of (n / FILE2BLK))) j) :
    ∀ j, (v.slot d n).word ≤ j → v' (v.slot d n).block j = v (v.slot d n).block j := by
  intro j hj
  rw [slot_block]
  by_cases hmod : n % FILE2BLK = 0
  · have hnext := h.next
    rw [slotCost, if_pos hmod] at hnext
    rw [h.block hmod]
    refine hnew m le_rfl ?_ j
    split_ifs at hnext <;> omega
  · exact hlast hmod j hj

/-- The entries after entry `n` depend on what follows it in its block. -/
lemma entry_rest (hent : ∀ j, (v.slot d n).word ≤ j →
      v' (v.slot d n).block j = v (v.slot d n).block j)
    (hmod : (n + 1) % FILE2BLK ≠ 0) :
    ∀ j, 64 * ((n + 1) % FILE2BLK) ≤ j →
      v' (v.num d (.of ((n + 1) / FILE2BLK))) j = v (v.num d (.of ((n + 1) / FILE2BLK))) j := by
  intro j hj
  have hdiv : (n + 1) / FILE2BLK = n / FILE2BLK := by
    simp only [FILE2BLK] at *
    omega
  rw [hdiv, ← slot_block]
  refine hent j ?_
  rw [slot_word]
  simp only [FILE2BLK] at *
  omega

/-- The end of a directory depends on its numbers and its size, and on what is left of its last
block. -/
lemma View.DirEnd.congr (h : v.DirEnd d n)
    (hnum : ∀ sl : Slot, sl.Ok → v'.num d sl = v.num d sl)
    (hsize : v'.field d F_SIZE = v.field d F_SIZE)
    (hlast : n % FILE2BLK ≠ 0 → ∀ i, 64 * (n % FILE2BLK) ≤ i →
      v' (v.num d (.of (n / FILE2BLK))) i = v (v.num d (.of (n / FILE2BLK))) i) :
    v'.DirEnd d n := by
  refine ⟨?_, h.small, fun i hle hi => ?_, fun hle => ?_, fun k hle hk => ?_⟩
  · rw [hsize, h.size]
  · rw [hnum _ (Slot.data_of hi).ok, h.rest i hle hi]
  · rw [hnum _ Slot.ok_indirect, h.noIndex hle]
  · -- the last block is not full, and entry `k` is in it
    have hmod : n % FILE2BLK ≠ 0 := by
      intro hmod
      have := blocksOf_of_dvd hmod
      simp only [FILE2BLK] at *
      omega
    have hblocks := blocksOf_of_mod hmod
    have hdiv : k / FILE2BLK = n / FILE2BLK := by
      simp only [FILE2BLK] at *
      omega
    have hword : 64 * (n % FILE2BLK) ≤ 64 * (k % FILE2BLK) := by
      simp only [FILE2BLK] at *
      omega
    have hsmall : n / FILE2BLK < NINDIRECT := by
      have := h.small
      omega
    have hslot : v'.slot d k = v.slot d k :=
      slot_congr (by rw [hdiv]; exact hnum _ (Slot.data_of hsmall).ok)
    rw [hslot, named_congr]
    · exact h.unnamed k hle hk
    · rw [slot_block, slot_word, hdiv]
      exact hlast hmod _ hword

/-- **The entries of a directory depend on its numbers and its size, on what is left of its last
block, and on the blocks that were handed out for them.** -/
lemma View.Laid.congr (h : v.Laid d n es m m')
    (hnum : ∀ sl : Slot, sl.Ok → v'.num d sl = v.num d sl)
    (hsize : v'.field d F_SIZE = v.field d F_SIZE)
    (hnew : ∀ b, m ≤ b → b < m' → ∀ i, v' b i = v b i)
    (hlast : n % FILE2BLK ≠ 0 → ∀ i, 64 * (n % FILE2BLK) ≤ i →
      v' (v.num d (.of (n / FILE2BLK))) i = v (v.num d (.of (n / FILE2BLK))) i) :
    v'.Laid d n es m m' := by
  induction h with
  | nil hend => exact .nil (hend.congr hnum hsize hlast)
  | @file d n m m₁ m₂ m₃ name data rest hslot hname hfile hrest ih =>
      have hle₁ := hslot.spread.le
      have hle₂ := hfile.le
      have hle₃ := hrest.spread.le
      have hblock := hnum _ (Slot.data_of hslot.small).ok
      have hent := hslot.entry_congr (hle₂.trans hle₃) hnew hlast
      refine .file (hslot.congr hblock fun _ => hnum _ Slot.ok_indirect) ?_ ?_
        (ih hnum hsize (fun b hlo hhi => hnew b (by omega) hhi) (entry_rest hent))
      · rw [slot_congr hblock, name_congr fun k _ => hent _ (Nat.le_add_right _ _), hname]
      · rw [slot_congr hblock]
        exact hfile.congr (fun i hi _ => hent i hi) fun b hlo hhi => hnew b (by omega) (by omega)
  | @dir d n m m₁ m₂ m₃ name inner rest hslot hname hdir hinner hrest ihinner ihrest =>
      have hle₁ := hslot.spread.le
      have hle₂ := hinner.spread.le
      have hle₃ := hrest.spread.le
      have hblock := hnum _ (Slot.data_of hslot.small).ok
      have hent := hslot.entry_congr (hle₂.trans hle₃) hnew hlast
      have hfield : ∀ k, v'.field (v.slot d n) k = v.field (v.slot d n) k :=
        fun k => hent _ (Nat.le_add_right _ _)
      refine .dir (hslot.congr hblock fun _ => hnum _ Slot.ok_indirect) ?_ ?_ ?_
        (ihrest hnum hsize (fun b hlo hhi => hnew b (by omega) hhi) (entry_rest hent))
      · rw [slot_congr hblock, name_congr fun k _ => hent _ (Nat.le_add_right _ _), hname]
      · rw [slot_congr hblock, View.IsDir, hfield]
        exact hdir
      · rw [slot_congr hblock]
        refine ihinner (fun sl hsl => ?_) (hfield _)
          (fun b hlo hhi => hnew b (by omega) (by omega)) fun h0 => absurd rfl h0
        refine num_congr (fun k _ _ => hfield k) (fun hne i => ?_) hsl
        obtain ⟨hlo, hhi⟩ := hinner.spread.range (v.slot d n, .indirect)
          (.inl ⟨rfl, mem_later_zero.mpr Slot.ok_indirect⟩) hne
        exact hnew _ (hle₁.trans hlo) (hhi.trans_le hle₃) i

/-! ## Handing out blocks -/

/-- A file with `nb` blocks, whose numbers are below `m`. -/
structure View.Holder (v : View) (f : FileRef) (nb m : ℕ) : Prop where
  below : f.block < m
  few : nb + 3 ≤ m
  range : ∀ i < nb, v.num f (.of i) ≠ 0 ∧ v.num f (.of i) < m ∧ v.num f (.of i) ≠ f.block
  inj : ∀ i < nb, ∀ k < nb, v.num f (.of i) = v.num f (.of k) → i = k
  rest : ∀ i, nb ≤ i → i < NINDIRECT → v.num f (.of i) = 0
  index : NDIRECT < nb → v.num f .indirect ≠ 0 ∧ v.num f .indirect < m ∧
    v.num f .indirect ≠ f.block ∧ ∀ i < nb, v.num f (.of i) ≠ v.num f .indirect
  noIndex : nb ≤ NDIRECT → v.num f .indirect = 0

/-- One for the indirect block, if it is missing. -/
def indexCost (nb : ℕ) : ℕ := if nb = NDIRECT then 1 else 0

/-- What `save_block_link` leaves: the number of block `nb` is `m`. -/
def View.linked (v : View) (f : FileRef) (nb m : ℕ) : View :=
  if nb < NDIRECT then v.store f.block (f.word + F_DIRECT + nb) (BitVec.ofNat 32 m)
  else if nb = NDIRECT then
    (v.store f.block (f.word + F_INDIRECT) (BitVec.ofNat 32 (m + 1))).store (m + 1) nb
      (BitVec.ofNat 32 m)
  else v.store (v.num f .indirect) nb (BitVec.ofNat 32 m)

/-- The places for the blocks of a file from block `nb` on. -/
def View.Growth (v : View) (f : FileRef) (nb m m' b i : ℕ) : Prop :=
  (m ≤ b ∧ b < m') ∨
  (b = f.block ∧ ((∃ k, nb ≤ k ∧ k < NDIRECT ∧ i = f.word + F_DIRECT + k) ∨
    (nb ≤ NDIRECT ∧ i = f.word + F_INDIRECT))) ∨
  (NDIRECT < nb ∧ b = v.num f .indirect ∧ nb ≤ i)

lemma toNat_of_le_NBLOCK (h : m ≤ Format.NBLOCK) : (BitVec.ofNat 32 m).toNat = m := by
  rw [BitVec.toNat_ofNat]
  apply Nat.mod_eq_of_lt
  simp only [Format.NBLOCK] at h
  omega

lemma View.Holder.mono (h : v.Holder f nb m) (hle : m ≤ m') : v.Holder f nb m' where
  below := h.below.trans_le hle
  few := h.few.trans hle
  range i hi := ⟨(h.range i hi).1, (h.range i hi).2.1.trans_le hle, (h.range i hi).2.2⟩
  inj := h.inj
  rest := h.rest
  index hlt := ⟨(h.index hlt).1, (h.index hlt).2.1.trans_le hle, (h.index hlt).2.2⟩
  noIndex := h.noIndex

/-- On a disk of `NBLOCK` blocks the next block of a file has a slot. -/
lemma View.Holder.lt_NINDIRECT (h : v.Holder f nb m) (hm : m < Format.NBLOCK) :
    nb < NINDIRECT := by
  have hfew := h.few
  simp only [Format.NBLOCK] at hm
  simp only [NINDIRECT]
  omega

/-- A file depends on its numbers. -/
lemma View.Holder.of_num (h : v.Holder f nb m) (hsmall : nb ≤ NINDIRECT)
    (hnum : ∀ sl : Slot, sl.Ok → v'.num f sl = v.num f sl) : v'.Holder f nb m := by
  have hind := hnum _ Slot.ok_indirect
  have hof : ∀ i < nb, v'.num f (.of i) = v.num f (.of i) :=
    fun i hi => hnum _ (Slot.data_of (hi.trans_le hsmall)).ok
  refine ⟨h.below, h.few, fun i hi => ?_, fun i hi k hk heq => ?_, fun i hle hi => ?_,
    fun hlt => ?_, fun hle => ?_⟩
  · rw [hof i hi]
    exact h.range i hi
  · rw [hof i hi, hof k hk] at heq
    exact h.inj i hi k hk heq
  · rw [hnum _ (Slot.data_of hi).ok, h.rest i hle hi]
  · rw [hind]
    obtain ⟨h0, hm, hne, hne'⟩ := h.index hlt
    exact ⟨h0, hm, hne, fun i hi => by rw [hof i hi]; exact hne' i hi⟩
  · rw [hind, h.noIndex hle]

/-- The number of a direct slot is a word of the `struct File`. -/
lemma num_of_lt (hi : i < NDIRECT) :
    v.num f (.of i) = (v f.block (f.word + F_DIRECT + i)).toNat := by
  rw [Slot.of, if_pos hi, View.num, View.field, Nat.add_assoc]

/-- The number of another slot is a word of the indirect block. -/
lemma num_of_ge (hi : NDIRECT ≤ i) (hind : v.num f .indirect ≠ 0) :
    v.num f (.of i) = (v (v.num f .indirect) i).toNat := by
  have h0 : v.field f F_INDIRECT ≠ 0#32 := fun h0 => hind (by rw [View.num, h0]; rfl)
  rw [Slot.of, if_neg (not_lt.mpr hi)]
  exact if_neg h0

lemma num_of_ge_zero (hi : NDIRECT ≤ i) (hind : v.num f .indirect = 0) : v.num f (.of i) = 0 := by
  rw [Slot.of, if_neg (not_lt.mpr hi)]
  exact num_index_eq_zero hind

lemma num_indirect : v.num f .indirect = (v f.block (f.word + F_INDIRECT)).toNat := rfl

/-- The numbers of a file to which nothing is changed but its places for further blocks, its size,
and what is in its blocks. -/
lemma View.Holder.num_kept (h : v.Holder f nb m)
    (ho : ∀ b i, ¬ v.Growth f nb m m' b i → ¬ (b = f.block ∧ i = f.word + F_SIZE) →
      (∀ k < nb, b ≠ v.num f (.of k)) → v' b i = v b i) :
    (∀ i < nb, v'.num f (.of i) = v.num f (.of i)) ∧
      (NDIRECT < nb → v'.num f .indirect = v.num f .indirect) := by
  have hbelow := h.below
  have hblock : ∀ k < nb, f.block ≠ v.num f (.of k) := fun k hk => (h.range k hk).2.2.symm
  have hind : NDIRECT < nb → v'.num f .indirect = v.num f .indirect := by
    intro hlt
    rw [num_indirect, num_indirect, ho _ _ ?_ ?_ hblock]
    · rintro (⟨hle, -⟩ | ⟨-, ⟨k, -, hk, heq⟩ | ⟨hle, -⟩⟩ | ⟨-, heq, -⟩)
      · omega
      · simp only [F_INDIRECT, F_DIRECT, NDIRECT] at heq hk
        omega
      · omega
      · exact (h.index hlt).2.2.1 heq.symm
    · rintro ⟨-, heq⟩
      simp only [F_INDIRECT, F_SIZE] at heq
      omega
  refine ⟨fun i hi => ?_, hind⟩
  by_cases hdir : i < NDIRECT
  · rw [num_of_lt hdir, num_of_lt hdir, ho _ _ ?_ ?_ hblock]
    · rintro (⟨hle, -⟩ | ⟨-, ⟨k, hk, -, heq⟩ | ⟨-, heq⟩⟩ | ⟨hlt, heq, -⟩)
      · omega
      · omega
      · simp only [F_INDIRECT, F_DIRECT, NDIRECT] at heq hdir
        omega
      · exact (h.index hlt).2.2.1 heq.symm
    · rintro ⟨-, heq⟩
      simp only [F_DIRECT, F_SIZE] at heq
      omega
  · have hlt : NDIRECT < nb := by omega
    obtain ⟨hne, hm, hne', hnum⟩ := h.index hlt
    rw [num_of_ge (not_lt.mp hdir) (by rwa [hind hlt]), num_of_ge (not_lt.mp hdir) hne, hind hlt,
      ho _ _ ?_ (fun hand => hne' hand.1) fun k hk => (hnum k hk).symm]
    rintro (⟨hle, -⟩ | ⟨heq, -⟩ | ⟨-, -, hle⟩)
    · omega
    · exact hne' heq
    · omega

/-- Only the places of block `nb` change. -/
lemma View.Holder.only_linked (h : v.Holder f nb m) :
    View.Only (v.Growth f nb m (m + 1 + indexCost nb)) v (v.linked f nb m) := by
  intro b i hnot
  rw [View.linked]
  split_ifs with hdir heq
  · rw [View.store_apply, if_neg]
    rintro ⟨rfl, rfl⟩
    exact hnot (.inr (.inl ⟨rfl, .inl ⟨nb, le_rfl, hdir, rfl⟩⟩))
  · rw [View.store_apply, if_neg, View.store_apply, if_neg]
    · rintro ⟨rfl, rfl⟩
      exact hnot (.inr (.inl ⟨rfl, .inr ⟨heq.le, rfl⟩⟩))
    · rintro ⟨rfl, rfl⟩
      refine hnot (.inl ⟨Nat.le_succ m, ?_⟩)
      rw [indexCost, if_pos heq]
      exact Nat.lt_succ_self _
  · rw [View.store_apply, if_neg]
    rintro ⟨rfl, rfl⟩
    exact hnot (.inr (.inr ⟨by omega, rfl, le_rfl⟩))

lemma direct_eq_indirect {k : ℕ} : f.word + F_DIRECT + k = f.word + F_INDIRECT ↔ k = NDIRECT := by
  simp only [F_DIRECT, F_INDIRECT, NDIRECT]
  omega

/-- The number of the indirect block. -/
lemma View.Holder.num_linked_indirect (h : v.Holder f nb m) (hm : m < Format.NBLOCK) :
    (v.linked f nb m).num f .indirect =
      if nb = NDIRECT then m + 1 else v.num f .indirect := by
  have hbelow := h.below
  have hm1Nat := toNat_of_le_NBLOCK (Nat.succ_le_of_lt hm)
  rw [num_indirect, View.linked]
  split_ifs with hdir heq heq
  · omega
  · rw [View.store_apply, if_neg, num_indirect]
    rintro ⟨-, hw⟩
    exact heq (direct_eq_indirect.mp hw.symm)
  · rw [View.store_apply, if_neg (by omega), View.store_apply, if_pos ⟨rfl, rfl⟩, hm1Nat]
  · rw [View.store_apply, if_neg, num_indirect]
    rintro ⟨hb, -⟩
    exact (h.index (by omega)).2.2.1 hb.symm

/-- The numbers in the `struct File`. -/
lemma View.Holder.num_linked_direct (h : v.Holder f nb m) (hm : m < Format.NBLOCK)
    (hi : i < NDIRECT) :
    (v.linked f nb m).num f (.of i) = if i = nb then m else v.num f (.of i) := by
  have hbelow := h.below
  rw [num_of_lt hi, num_of_lt hi, View.linked]
  split_ifs with hnb heq heq heq heq
  · rw [View.store_apply, if_pos ⟨rfl, by rw [heq]⟩, toNat_of_le_NBLOCK hm.le]
  · rw [View.store_apply, if_neg (by omega)]
  · omega
  · rw [View.store_apply, if_neg (by omega), View.store_apply, if_neg]
    rintro ⟨-, hw⟩
    have := direct_eq_indirect.mp hw
    omega
  · omega
  · rw [View.store_apply, if_neg]
    rintro ⟨hb, -⟩
    exact (h.index (by omega)).2.2.1 hb.symm

/-- The number of the new block is in its slot, and there is the indirect block. -/
lemma View.Holder.num_linked (h : v.Holder f nb m) (hm : m < Format.NBLOCK)
    (hblank : ∀ i, v (m + 1) i = 0#32) :
    (∀ i < NINDIRECT, (v.linked f nb m).num f (.of i) = if i = nb then m else v.num f (.of i)) ∧
      (v.linked f nb m).num f .indirect =
        if nb = NDIRECT then m + 1 else v.num f .indirect := by
  have hbelow := h.below
  have hmNat := toNat_of_le_NBLOCK hm.le
  have hind := h.num_linked_indirect hm
  refine ⟨fun i hi => ?_, hind⟩
  by_cases hdir : i < NDIRECT
  · exact h.num_linked_direct hm hdir
  · have hge := not_lt.mp hdir
    rcases Nat.lt_trichotomy nb NDIRECT with hnb | hnb | hnb
    · -- neither before nor after there is an indirect block
      have h0 := h.noIndex hnb.le
      rw [if_neg hnb.ne, h0] at hind
      rw [num_of_ge_zero hge hind, num_of_ge_zero hge h0, if_neg (by omega)]
    · have h0 := h.noIndex hnb.le
      rw [if_pos hnb] at hind
      rw [num_of_ge hge (by omega), hind, num_of_ge_zero hge h0, View.linked, if_neg (by omega),
        if_pos hnb, View.store_apply]
      split_ifs with hand heq heq
      · exact hmNat
      · exact absurd hand.2 heq
      · exact absurd ⟨rfl, heq⟩ hand
      · rw [View.store_apply, if_neg (by omega), hblank]
        rfl
    · obtain ⟨hne, hlt, hblock, -⟩ := h.index hnb
      rw [if_neg hnb.ne'] at hind
      rw [num_of_ge hge (by rwa [hind]), hind, num_of_ge hge hne, View.linked, if_neg (by omega),
        if_neg hnb.ne', View.store_apply]
      split_ifs with hand heq heq
      · exact hmNat
      · exact absurd hand.2 heq
      · exact absurd ⟨rfl, heq⟩ hand
      · rfl

/-- The file has one more block. -/
lemma View.Holder.linked (h : v.Holder f nb m) (hm : m < Format.NBLOCK) (hnb : nb < NINDIRECT)
    (hblank : ∀ i, v (m + 1) i = 0#32) :
    (v.linked f nb m).Holder f (nb + 1) (m + 1 + indexCost nb) := by
  obtain ⟨hnum, hind⟩ := h.num_linked hm hblank
  have hbelow := h.below
  have hfew := h.few
  have hcost : indexCost nb = if nb = NDIRECT then 1 else 0 := rfl
  have hold : ∀ i < nb, (v.linked f nb m).num f (.of i) = v.num f (.of i) := by
    intro i hi
    rw [hnum i (hi.trans hnb), if_neg hi.ne]
  have hnew : (v.linked f nb m).num f (.of nb) = m := by rw [hnum nb hnb, if_pos rfl]
  refine ⟨by omega, by omega, fun i hi => ?_, fun i hi k hk heq => ?_, fun i hle hi => ?_,
    fun hlt => ?_, fun hle => ?_⟩
  · rcases Nat.lt_succ_iff_lt_or_eq.mp hi with hi | rfl
    · obtain ⟨h0, hlt, hne⟩ := h.range i hi
      rw [hold i hi]
      exact ⟨h0, by omega, hne⟩
    · rw [hnew]
      exact ⟨by omega, by omega, by omega⟩
  · rcases Nat.lt_succ_iff_lt_or_eq.mp hi with hi | rfl <;>
      rcases Nat.lt_succ_iff_lt_or_eq.mp hk with hk | rfl
    · rw [hold i hi, hold k hk] at heq
      exact h.inj i hi k hk heq
    · rw [hold i hi, hnew] at heq
      have := (h.range i hi).2.1
      omega
    · rw [hold k hk, hnew] at heq
      have := (h.range k hk).2.1
      omega
    · rfl
  · rw [hnum i hi, if_neg (by omega), h.rest i (by omega) hi]
  · rw [hind]
    split_ifs with heq
    · refine ⟨by omega, by rw [hcost, if_pos heq]; omega, by omega, fun i hi => ?_⟩
      rcases Nat.lt_succ_iff_lt_or_eq.mp hi with hi | rfl
      · have := (h.range i hi).2.1
        rw [hold i hi]
        omega
      · rw [hnew]
        omega
    · obtain ⟨h0, hlt', hne, hne'⟩ := h.index (by omega)
      refine ⟨h0, by omega, hne, fun i hi => ?_⟩
      rcases Nat.lt_succ_iff_lt_or_eq.mp hi with hi | rfl
      · rw [hold i hi]
        exact hne' i hi
      · rw [hnew]
        omega
  · rw [hind, if_neg (by omega)]
    exact h.noIndex (by omega)

/-! ## Directories -/

/-- The places for the entries of a directory from entry `n` on. -/
def View.Zone (v : View) (d : FileRef) (n m m' b i : ℕ) : Prop :=
  v.Growth d (blocksOf n) m m' b i ∨ (b = d.block ∧ i = d.word + F_SIZE) ∨
  (n % FILE2BLK ≠ 0 ∧ b = v.num d (.of (n / FILE2BLK)) ∧ 64 * (n % FILE2BLK) ≤ i)

/-- **A directory with `nb` blocks and `n` entries**, on a disk that is blank from block `m` on. -/
structure View.DirAt (v : View) (d : FileRef) (nb n m : ℕ) : Prop where
  holder : v.Holder d nb m
  small : nb ≤ NINDIRECT
  size : (v.field d F_SIZE).toNat = BY2BLK * nb
  named : ∀ k < n, v.Named (v.slot d k)
  zero : ∀ k, n ≤ k → k < FILE2BLK * nb →
    ∀ i < 64, v (v.slot d k).block ((v.slot d k).word + i) = 0#32
  blank : v.ZeroFrom m

/-- What `create_file` leaves, for entry `n`. -/
structure View.Created (v : View) (d : FileRef) (n m : ℕ) (v' : View) (m' : ℕ) : Prop where
  slotAt : v'.SlotAt d n m m'
  room : v'.DirAt d (blocksOf (n + 1)) n m'
  only : View.Only (v.Zone d n m m') v v'
  fits : m' ≤ Format.NBLOCK

/-- A block of a file is not one of its own places for further blocks. -/
lemma View.Holder.block_kept (h : v.Holder f nb m) (ho : View.Only (v.Growth f nb m m') v v')
    (hi : i < nb) : v' (v.num f (.of i)) = v (v.num f (.of i)) := by
  obtain ⟨-, hlt, hne⟩ := h.range i hi
  funext j
  refine ho _ j ?_
  rintro (⟨hle, -⟩ | ⟨heq, -⟩ | ⟨hnb, heq, -⟩)
  · omega
  · exact hne heq
  · exact (h.index hnb).2.2.2 i hi heq

/-- A file depends on the blocks that were handed out before. -/
lemma View.Holder.congr (h : v.Holder f nb m) (hsmall : nb ≤ NINDIRECT)
    (hold : ∀ b < m, ∀ i, v' b i = v b i) :
    v'.Holder f nb m ∧ ∀ sl : Slot, sl.Ok → v'.num f sl = v.num f sl := by
  have hnum : ∀ sl : Slot, sl.Ok → v'.num f sl = v.num f sl := by
    intro sl hsl
    refine num_congr (fun k _ _ => hold _ h.below _) (fun hne i => ?_) hsl
    have hlt : NDIRECT < nb := by
      by_contra hle
      exact hne (h.noIndex (not_lt.mp hle))
    exact hold _ (h.index hlt).2.1 i
  exact ⟨h.of_num hsmall hnum, hnum⟩

/-- The block that is linked is not written to. -/
lemma View.Holder.linked_new (h : v.Holder f nb m) : (v.linked f nb m) m = v m := by
  have hbelow := h.below
  funext j
  rw [View.linked]
  split_ifs with hdir heq
  · rw [View.store_apply, if_neg (by omega)]
  · rw [View.store_apply, if_neg (by omega), View.store_apply, if_neg (by omega)]
  · have := (h.index (by omega)).2.1
    rw [View.store_apply, if_neg (by omega)]

/-- What is blank stays blank where nothing is written. -/
lemma View.Holder.blank (h : v.Holder f nb m) (hb : v.ZeroFrom m) (hle : m ≤ m')
    (ho : View.Only (v.Growth f nb m m') v v') : v'.ZeroFrom m' := by
  have hbelow := h.below
  intro b hm i
  rw [ho, hb b (hle.trans hm) i]
  rintro (⟨-, hlt⟩ | ⟨heq, -⟩ | ⟨hnb, heq, -⟩)
  · omega
  · omega
  · have := (h.index hnb).2.1
    omega

/-- The size of a file is in a word that no number is in. -/
lemma View.Holder.resized {w : Word} (h : v.Holder f nb m) (hsmall : nb ≤ NINDIRECT) :
    (v.store f.block (f.word + F_SIZE) w).Holder f nb m ∧
      ∀ sl : Slot, sl.Ok → (v.store f.block (f.word + F_SIZE) w).num f sl = v.num f sl := by
  have hnum : ∀ sl : Slot, sl.Ok →
      (v.store f.block (f.word + F_SIZE) w).num f sl = v.num f sl := by
    intro sl hsl
    refine num_congr (fun k hk _ => ?_) (fun hne i => ?_) hsl
    · rw [View.field, View.store_apply, if_neg, View.field]
      rintro ⟨-, heq⟩
      simp only [F_DIRECT, F_SIZE] at hk heq
      omega
    · have hlt : NDIRECT < nb := by
        by_contra hle
        exact hne (h.noIndex (not_lt.mp hle))
      rw [View.store_apply, if_neg fun hand => (h.index hlt).2.2.1 hand.1]
  exact ⟨h.of_num hsmall hnum, hnum⟩

/-- **The next entry of a directory is the first one of a new block.** -/
lemma View.DirAt.created (h : v.DirAt d (n / FILE2BLK) n m) (hmod : n % FILE2BLK = 0)
    (hm : m < Format.NBLOCK) (hm' : m' = m + 1 + indexCost (n / FILE2BLK))
    (hfits : m' ≤ Format.NBLOCK) :
    v.Created d n m ((v.linked d (n / FILE2BLK) m).store d.block (d.word + F_SIZE)
      (v.field d F_SIZE + BitVec.ofNat 32 BY2BLK)) m' := by
  generalize hnb : n / FILE2BLK = nb at h hm' ⊢
  have hn : n = FILE2BLK * nb := by
    have := Nat.div_add_mod n FILE2BLK
    rw [hnb, hmod, Nat.add_zero] at this
    exact this.symm
  have hholder := h.holder
  have hbelow := hholder.below
  have hsmall := hholder.lt_NINDIRECT hm
  have hblank1 : ∀ i, v (m + 1) i = 0#32 := h.blank (m + 1) (Nat.le_succ m)
  have honly := hholder.only_linked
  have hlinked := hholder.linked hm hsmall hblank1
  obtain ⟨hnum, hind⟩ := hholder.num_linked hm hblank1
  rw [← hm'] at honly hlinked
  have hnewBlock := hholder.linked_new
  -- the size is written to a word that no number is in
  generalize hw : v.field d F_SIZE + BitVec.ofNat 32 BY2BLK = w
  generalize hu : v.linked d nb m = u at honly hlinked hnum hind hnewBlock ⊢
  have hstore : ∀ b i, ¬ (b = d.block ∧ i = d.word + F_SIZE) →
      u.store d.block (d.word + F_SIZE) w b i = u b i := by
    intro b i hne
    rw [View.store_apply, if_neg hne]
  obtain ⟨hresized, hnum'⟩ := hlinked.resized (w := w) hsmall
  generalize hv' : u.store d.block (d.word + F_SIZE) w = v' at hstore hresized hnum' ⊢
  have hof : ∀ i < NINDIRECT, v'.num d (.of i) = if i = nb then m else v.num d (.of i) :=
    fun i hi => (hnum' _ (Slot.data_of hi).ok).trans (hnum i hi)
  have hnew : v'.num d (.of nb) = m := by rw [hof nb hsmall, if_pos rfl]
  have hind' := (hnum' _ Slot.ok_indirect).trans hind
  have honly' : View.Only (v.Zone d n m m') v v' := by
    intro b i hnot
    rw [hstore b i fun hand => hnot (.inr (.inl hand))]
    refine honly b i fun hg => hnot (.inl ?_)
    rwa [blocksOf_of_dvd hmod, hnb]
  have hslotNew : ∀ k, n ≤ k → k < FILE2BLK * (nb + 1) → (v'.slot d k).block = m := by
    intro k hle hlt
    have hk : k / FILE2BLK = nb := by
      simp only [FILE2BLK] at *
      omega
    rw [slot_block, hk, hnew]
  refine ⟨⟨?_, ?_, fun _ => ?_, fun _ heq => ?_⟩, ⟨?_, ?_, ?_, fun k hk => ?_,
    fun k hle hk i hi => ?_, ?_⟩, honly', hfits⟩
  · rw [hm', slotCost, if_pos hmod, hnb, indexCost]
    split_ifs <;> rfl
  · rwa [hnb]
  · rw [hnb, hnew]
  · rw [hind', if_pos (hnb.symm.trans heq)]
  · rwa [blocksOf_succ, hnb]
  · rwa [blocksOf_succ, hnb]
  · have hself : v'.field d F_SIZE = w := by
      rw [← hv', View.field, View.store_apply, if_pos ⟨rfl, rfl⟩]
    have hsize := h.size
    rw [hself, ← hw, blocksOf_succ, hnb, BitVec.toNat_add, hsize, BitVec.toNat_ofNat]
    simp only [BY2BLK, NINDIRECT] at *
    omega
  · -- the entries before are in blocks that were there before
    have hk' : k / FILE2BLK < nb := Nat.div_lt_of_lt_mul (hk.trans_eq hn)
    have hkeep : v'.num d (.of (k / FILE2BLK)) = v.num d (.of (k / FILE2BLK)) := by
      rw [hof _ (hk'.trans hsmall), if_neg hk'.ne]
    obtain ⟨-, -, hne⟩ := hholder.range _ hk'
    rw [slot_congr hkeep, named_congr]
    · exact h.named k hk
    · rw [slot_block, hstore _ _ fun hand => hne hand.1,
        hholder.block_kept honly hk']
  · rw [blocksOf_succ, hnb] at hk
    have hb := hslotNew k hle hk
    rw [hb, hstore _ _ fun hand => by omega, hnewBlock, h.blank m le_rfl]
  · intro b hb i
    have hbd : b ≠ d.block := by omega
    rw [hstore b i fun hand => hbd hand.1]
    exact hholder.blank h.blank (by omega) honly b hb i

/-! ## Entries -/

/-- The places of an entry and of the blocks that are handed out for what is in it. -/
def FileRef.Zone (e : FileRef) (m m' b i : ℕ) : Prop :=
  (m ≤ b ∧ b < m') ∨ (b = e.block ∧ e.word ≤ i ∧ i < e.word + 64)

/-- Filling an entry leaves the numbers of the directory as they are. -/
lemma View.DirAt.num_filled (h : v.DirAt d nb n m) (hn : n < FILE2BLK * nb)
    (ho : View.Only ((v.slot d n).Zone m m') v v') (hsl : sl.Ok) : v'.num d sl = v.num d sl := by
  have hbelow := h.holder.below
  have hn' : n / FILE2BLK < nb := Nat.div_lt_of_lt_mul hn
  obtain ⟨-, -, hne⟩ := h.holder.range _ hn'
  refine num_congr (fun k _ _ => ho _ _ ?_) (fun h0 i => ho _ _ ?_) hsl
  · rintro (⟨hle, -⟩ | ⟨heq, -⟩)
    · omega
    · exact hne heq.symm
  · have hlt : NDIRECT < nb := by
      by_contra hle
      exact h0 (h.holder.noIndex (not_lt.mp hle))
    obtain ⟨-, hm, -, hind⟩ := h.holder.index hlt
    rintro (⟨hle, -⟩ | ⟨heq, -⟩)
    · omega
    · exact hind _ hn' heq.symm

/-- **An entry of a directory is filled.** -/
lemma View.DirAt.filled (h : v.DirAt d nb n m) (hn : n < FILE2BLK * nb) (hle : m ≤ m')
    (ho : View.Only ((v.slot d n).Zone m m') v v') (hnamed : v'.Named (v.slot d n))
    (hblank : v'.ZeroFrom m') : v'.DirAt d nb (n + 1) m' := by
  have hholder := h.holder
  have hbelow := hholder.below
  have hn' : n / FILE2BLK < nb := Nat.div_lt_of_lt_mul hn
  have hnum : ∀ sl : Slot, sl.Ok → v'.num d sl = v.num d sl := fun sl hsl => h.num_filled hn ho hsl
  have hof : ∀ i < nb, v'.num d (.of i) = v.num d (.of i) :=
    fun i hi => hnum _ (Slot.data_of (hi.trans_le h.small)).ok
  have hslot : ∀ k, k < FILE2BLK * nb → v'.slot d k = v.slot d k := by
    intro k hk
    exact slot_congr (hof _ (Nat.div_lt_of_lt_mul hk))
  -- the other entries are at other words
  have hother : ∀ k, k < FILE2BLK * nb → k ≠ n → ∀ i < 64,
      v' (v.slot d k).block ((v.slot d k).word + i) =
        v (v.slot d k).block ((v.slot d k).word + i) := by
    intro k hk hne i hi
    have hk' : k / FILE2BLK < nb := Nat.div_lt_of_lt_mul hk
    refine ho _ _ ?_
    rintro (⟨hlow, -⟩ | ⟨hb, hlow, hhigh⟩)
    · have := (hholder.range _ hk').2.1
      rw [slot_block] at hlow
      omega
    · rw [slot_block, slot_block] at hb
      have heq := hholder.inj _ hk' _ hn' hb
      rw [slot_word, slot_word] at hlow hhigh
      simp only [FILE2BLK] at *
      omega
  refine ⟨(hholder.of_num h.small hnum).mono hle, h.small, ?_, fun k hk => ?_,
    fun k hlek hk i hi => ?_, hblank⟩
  · have hkeep : v'.field d F_SIZE = v.field d F_SIZE := by
      refine ho _ _ ?_
      rintro (⟨hlow, -⟩ | ⟨hb, -⟩)
      · omega
      · exact (hholder.range _ hn').2.2 hb.symm
    rw [hkeep, h.size]
  · have hk' : k < FILE2BLK * nb := by omega
    rw [hslot k hk']
    rcases Nat.lt_succ_iff_lt_or_eq.mp hk with hlt | rfl
    · rw [named_congr (hother k hk' hlt.ne 0 (by decide))]
      exact h.named k hlt
    · exact hnamed
  · rw [hslot k hk, hother k hk (by omega) i hi]
    exact h.zero k (by omega) hk i hi

/-- An entry is in a block behind the reserved ones, which is not that of the directory. -/
lemma View.DirAt.slot_below (h : v.DirAt d nb n m) (hn : n < FILE2BLK * nb) :
    (v.slot d n).block < m := by
  have hn' : n / FILE2BLK < nb := Nat.div_lt_of_lt_mul hn
  exact (h.holder.range _ hn').2.1

/-- An entry that is all zero is a file without blocks. -/
lemma View.Holder.of_zero (hbelow : f.block < m) (hm : 3 ≤ m)
    (hzero : ∀ k, F_DIRECT ≤ k → k ≤ F_INDIRECT → v.field f k = 0#32) : v.Holder f 0 m := by
  have hind : v.num f .indirect = 0 := by
    rw [View.num, hzero F_INDIRECT (by decide) le_rfl]
    rfl
  refine ⟨hbelow, by omega, fun i hi => absurd hi (Nat.not_lt_zero i),
    fun i hi => absurd hi (Nat.not_lt_zero i), fun i _ hi => ?_,
    fun hlt => absurd hlt (Nat.not_lt_zero _), fun _ => hind⟩
  by_cases hdir : i < NDIRECT
  · rw [num_of_lt hdir, Nat.add_assoc]
    have := hzero (F_DIRECT + i) (Nat.le_add_right _ _) (by
      simp only [F_DIRECT, F_INDIRECT, NDIRECT] at *
      omega)
    rw [View.field] at this
    rw [this]
    rfl
  · exact num_of_ge_zero (not_lt.mp hdir) hind

/-! ## One entry after the other -/

/-- The entries that come later leave the numbers of the directory as they are. -/
lemma View.DirAt.num_kept (h : v.DirAt d (blocksOf n) n m)
    (ho : View.Only (v.Zone d n m m') v v') :
    (∀ i < blocksOf n, v'.num d (.of i) = v.num d (.of i)) ∧
      (NDIRECT < blocksOf n → v'.num d .indirect = v.num d .indirect) := by
  refine h.holder.num_kept fun b i (hgrowth : ¬ v.Growth d (blocksOf n) m m' b i) hsize hblock =>
    ho b i ?_
  rintro (hg | hs | ⟨hmod, heq, -⟩)
  · exact hgrowth hg
  · exact hsize hs
  · refine hblock _ ?_ heq
    rw [blocksOf_of_mod hmod]
    exact Nat.lt_succ_self _

/-- Entry `n` is in one of the blocks. -/
lemma lt_room : n < FILE2BLK * blocksOf (n + 1) := by
  simp only [blocksOf, FILE2BLK]
  omega

lemma View.Created.le (h : v.Created d n m v' m') : m ≤ m' := h.slotAt.spread.le

section

variable {v₁ v₂ v₃ : View} {m₁ m₂ m₃ : ℕ}

/-- The directory after entry `n` has been filled. -/
lemma View.Created.next (h : v.Created d n m v₁ m₁) (hle : m₁ ≤ m₂)
    (ho : View.Only ((v₁.slot d n).Zone m₁ m₂) v₁ v₂) (hnamed : v₂.Named (v₁.slot d n))
    (hblank : v₂.ZeroFrom m₂) : v₂.DirAt d (blocksOf (n + 1)) (n + 1) m₂ :=
  h.room.filled lt_room hle ho hnamed hblank

/-- The entries that come later do not touch entry `n`, nor what is in it. -/
lemma View.Created.kept (h : v.Created d n m v₁ m₁) (hm : m₁ ≤ m₂)
    (ho : View.Only ((v₁.slot d n).Zone m₁ m₂) v₁ v₂)
    (hrest : View.Only (v₂.Zone d (n + 1) m₂ m₃) v₂ v₃) {b i : ℕ}
    (hb : (v₁.slot d n).Zone m₁ m₂ b i) : v₃ b i = v₂ b i := by
  have hnum : ∀ sl : Slot, sl.Ok → v₂.num d sl = v₁.num d sl :=
    fun sl hsl => h.room.num_filled lt_room ho hsl
  have hholder := h.room.holder
  have hbelow := hholder.below
  have hsucc := @blocksOf_succ n
  have hslot := hholder.range (n / FILE2BLK) (by omega)
  have hsmall := h.slotAt.small
  have hle := h.room.slot_below lt_room
  refine hrest b i ?_
  rintro ((⟨hlow, -⟩ | ⟨heq, -⟩ | ⟨hlt, heq, -⟩) | ⟨heq, -⟩ | ⟨hmod, heq, hword⟩)
  · rcases hb with ⟨-, hhi⟩ | ⟨heq, -⟩
    · omega
    · omega
  · rcases hb with ⟨hlo, -⟩ | ⟨heq', -⟩
    · omega
    · exact hslot.2.2 (heq'.symm.trans heq)
  · obtain ⟨-, hltm, -, hne⟩ := hholder.index hlt
    rw [hnum _ Slot.ok_indirect] at heq
    rcases hb with ⟨hlo, -⟩ | ⟨heq', -⟩
    · omega
    · exact hne _ (by omega) (heq'.symm.trans heq)
  · rcases hb with ⟨hlo, -⟩ | ⟨heq', -⟩
    · omega
    · exact hslot.2.2 (heq'.symm.trans heq)
  · have hdiv : (n + 1) / FILE2BLK = n / FILE2BLK := by
      simp only [FILE2BLK] at *
      omega
    rw [hdiv, hnum _ (Slot.data_of hsmall).ok] at heq
    rcases hb with ⟨hlo, -⟩ | ⟨-, -, hhi⟩
    · omega
    · rw [slot_word] at hhi
      simp only [FILE2BLK] at *
      omega

/-- The numbers of the directory that the entries up to `n` use. -/
lemma View.Created.slotAt_kept (h : v.Created d n m v₁ m₁)
    (ho : View.Only ((v₁.slot d n).Zone m₁ m₂) v₁ v₂)
    (hroom : v₂.DirAt d (blocksOf (n + 1)) (n + 1) m₂)
    (hrest : View.Only (v₂.Zone d (n + 1) m₂ m₃) v₂ v₃) :
    v₃.SlotAt d n m m₁ ∧ v₃.slot d n = v₁.slot d n := by
  have hnum : ∀ sl : Slot, sl.Ok → v₂.num d sl = v₁.num d sl :=
    fun sl hsl => h.room.num_filled lt_room ho hsl
  obtain ⟨hof, hind⟩ := hroom.num_kept hrest
  have hsucc := @blocksOf_succ n
  have hblock : v₃.num d (.of (n / FILE2BLK)) = v₁.num d (.of (n / FILE2BLK)) :=
    (hof _ (by omega)).trans (hnum _ (Slot.data_of h.slotAt.small).ok)
  refine ⟨h.slotAt.congr hblock fun heq => ?_, slot_congr hblock⟩
  exact (hind (by omega)).trans (hnum _ Slot.ok_indirect)

/-- Where all of it is written to. -/
lemma View.Created.only_next (h : v.Created d n m v₁ m₁) (hle : m₁ ≤ m₂) (hle' : m₂ ≤ m₃)
    (hroom : v.DirAt d (blocksOf n) n m) (ho : View.Only ((v₁.slot d n).Zone m₁ m₂) v₁ v₂)
    (hrest : View.Only (v₂.Zone d (n + 1) m₂ m₃) v₂ v₃) :
    View.Only (v.Zone d n m m₃) v v₃ := by
  have hm := h.le
  have hnum : ∀ sl : Slot, sl.Ok → v₂.num d sl = v₁.num d sl :=
    fun sl hsl => h.room.num_filled lt_room ho hsl
  obtain ⟨hof, hind⟩ := hroom.num_kept h.only
  have hnext := h.slotAt.next
  have hsucc := @blocksOf_succ n
  -- the block of entry `n` is the last one of the directory, or a new one
  have hplace : (n % FILE2BLK ≠ 0 ∧
      v₁.num d (.of (n / FILE2BLK)) = v.num d (.of (n / FILE2BLK))) ∨
      (m ≤ v₁.num d (.of (n / FILE2BLK)) ∧ v₁.num d (.of (n / FILE2BLK)) < m₃) := by
    by_cases hmod : n % FILE2BLK = 0
    · rw [slotCost, if_pos hmod] at hnext
      rw [h.slotAt.block hmod]
      refine .inr ⟨le_rfl, ?_⟩
      split_ifs at hnext <;> omega
    · refine .inl ⟨hmod, hof _ ?_⟩
      rw [blocksOf_of_mod hmod]
      exact Nat.lt_succ_self _
  refine (h.only.mono ?_).trans ((ho.mono ?_).trans (hrest.mono ?_))
  · rintro b i ((⟨hlo, hhi⟩ | hg) | hz)
    · exact .inl (.inl ⟨hlo, by omega⟩)
    · exact .inl (.inr hg)
    · exact .inr hz
  · rintro b i (⟨hlo, hhi⟩ | ⟨rfl, hword, -⟩)
    · exact .inl (.inl ⟨by omega, by omega⟩)
    · rcases hplace with ⟨hmod, heq⟩ | hnew
      · exact .inr (.inr ⟨hmod, heq, hword⟩)
      · exact .inl (.inl hnew)
  · rintro b i ((⟨hlo, hhi⟩ | ⟨rfl, ⟨k, hk, hk', rfl⟩ | ⟨hk, rfl⟩⟩ | ⟨hlt, heq, hword⟩) | hs |
      ⟨hmod, heq, hword⟩)
    · exact .inl (.inl ⟨by omega, hhi⟩)
    · exact .inl (.inr (.inl ⟨rfl, .inl ⟨k, blocksOf_le_succ.trans hk, hk', rfl⟩⟩))
    · exact .inl (.inr (.inl ⟨rfl, .inr ⟨blocksOf_le_succ.trans hk, rfl⟩⟩))
    · rw [hnum _ Slot.ok_indirect] at heq
      by_cases hbefore : NDIRECT < blocksOf n
      · rw [hind hbefore] at heq
        exact .inl (.inr (.inr ⟨hbefore, heq, blocksOf_le_succ.trans hword⟩))
      · -- the indirect block is new
        have hmod : n % FILE2BLK = 0 := by
          by_contra hmod
          have := blocksOf_of_mod hmod
          omega
        have hdiv : n / FILE2BLK = NDIRECT := by
          have := blocksOf_of_dvd hmod
          omega
        rw [slotCost, if_pos hmod, if_pos hdiv] at hnext
        rw [h.slotAt.index hmod hdiv] at heq
        exact .inl (.inl ⟨by omega, by omega⟩)
    · exact .inr (.inl hs)
    · have hdiv : (n + 1) / FILE2BLK = n / FILE2BLK := by
        simp only [FILE2BLK] at *
        omega
      rw [hdiv, hnum _ (Slot.data_of h.slotAt.small).ok] at heq
      rcases hplace with ⟨hmod', heq'⟩ | hnew
      · refine .inr (.inr ⟨hmod', heq.trans heq', ?_⟩)
        simp only [FILE2BLK] at *
        omega
      · rw [← heq] at hnew
        exact .inl (.inl hnew)

end

end

end MosRv.Fs
