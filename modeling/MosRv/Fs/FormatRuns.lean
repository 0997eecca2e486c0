import MosRv.Fs.LaidRoom

/-!
# What `fsformat` writes

One specification for each function of the program, from the bottom up: the entry that `create_file`
finds or makes, a file with its bytes, a directory with what is in it.  What is on the disk
afterwards is `View.Laid`.

The program does not look at how full the disk is.  It ends well exactly if the blocks suffice: else
it uses a block behind the end of its array.
-/

namespace MosRv.Fs

open Prog View

/-! ## Bytes -/

section

variable {blk : Block} {str data : List Byte} {c : Byte} {i j k n : ℕ}

lemma byte_zero (k : ℕ) : Bits.byte 0#32 k = 0#8 := by
  rw [Bits.byte]
  simp

lemma word_setByte (h : k ≠ i / 4) : blk.setByte i c k = blk k := by
  rw [Block.setByte, Function.update_of_ne h]

lemma word_strcpy (h : k < i / 4 ∨ i + str.length < 4 * k) : blk.strcpy i str k = blk k := by
  induction str generalizing blk i with
  | nil => rw [Block.strcpy, word_setByte (by rw [List.length_nil] at h; omega)]
  | cons c str ih =>
      rw [List.length_cons] at h
      rw [Block.strcpy, ih (by omega), word_setByte (by omega)]

lemma word_strncpy (h : k < i / 4 ∨ i + n ≤ 4 * k) : blk.strncpy i str n k = blk k := by
  induction n generalizing blk i str with
  | zero => rw [Block.strncpy]
  | succ n ih =>
      cases str with
      | nil => rw [Block.strncpy, ih (by omega), word_setByte (by omega)]
      | cons c str => rw [Block.strncpy, ih (by omega), word_setByte (by omega)]

/-- `strncpy` leaves alone what is before the string and after its room. -/
lemma byte_strncpy (h : j < i ∨ i + n ≤ j) : (blk.strncpy i str n).byte j = blk.byte j := by
  induction n generalizing blk i str with
  | zero => rw [Block.strncpy]
  | succ n ih =>
      cases str with
      | nil => rw [Block.strncpy, ih (by omega), byte_setByte, if_neg (by omega)]
      | cons c str => rw [Block.strncpy, ih (by omega), byte_setByte, if_neg (by omega)]

/-- A string that has room is followed by a zero. -/
lemma strEq_strncpy (hlen : str.length ≤ n) (hend : blk.byte (i + n) = 0#8) :
    (blk.strncpy i str n).strEq i str = true := by
  induction str generalizing blk i n with
  | nil =>
      rw [Block.strEq, decide_eq_true_iff]
      cases n with
      | zero => exact hend
      | succ n => rw [Block.strncpy, byte_strncpy (by omega), byte_setByte, if_pos rfl]
  | cons c str ih =>
      obtain ⟨n, rfl⟩ := Nat.exists_eq_add_one_of_ne_zero (Nat.ne_of_gt (Nat.zero_lt_of_lt hlen))
      rw [Block.strncpy, Block.strEq, decide_eq_true_iff, byte_strncpy (by omega), byte_setByte,
        if_pos rfl]
      refine ⟨rfl, ih (Nat.le_of_succ_le_succ hlen) ?_⟩
      rw [byte_setByte, if_neg (by omega), Nat.add_right_comm]
      exact hend

lemma byte_memcpy_of_lt (h : j < i) : (blk.memcpy i data).byte j = blk.byte j := by
  induction data generalizing blk i with
  | nil => rw [Block.memcpy]
  | cons c data ih => rw [Block.memcpy, ih (by omega), byte_setByte, if_neg (by omega)]

lemma byte_memcpy (hk : k < data.length) : (blk.memcpy i data).byte (i + k) = data[k] := by
  induction data generalizing blk i k with
  | nil => exact absurd hk (Nat.not_lt_zero k)
  | cons c data ih =>
      cases k with
      | zero =>
          rw [Block.memcpy, byte_memcpy_of_lt (by omega), byte_setByte, if_pos (Nat.add_zero i)]
          rfl
      | succ k =>
          have hi : i + (k + 1) = i + 1 + k := by omega
          rw [Block.memcpy, hi, ih (Nat.lt_of_succ_lt_succ hk)]
          rfl

lemma byte_memset :
    (blk.memset c i n).byte j = if i ≤ j ∧ j < i + n then c else blk.byte j := by
  induction n generalizing blk i with
  | zero => rw [Block.memset, if_neg (by omega)]
  | succ n ih =>
      rw [Block.memset, ih, byte_setByte]
      split_ifs <;> first | rfl | omega

end

/-- The number of blocks that are handed out for the entries of a directory, from entry `n` on. -/
def Entries.cost : ℕ → Entries → ℕ
  | _, .nil => 0
  | n, .file _ data rest => slotCost n + fileBlock 0 (chunks data) + rest.cost (n + 1)
  | n, .dir _ inner rest => slotCost n + inner.cost 0 + rest.cost (n + 1)

namespace Format

variable {s : Img} {v v' : View} {d e f : FileRef} {n m m' nb i : ℕ}
variable {E : ℕ → Img → Prop} {P : Failure → Prop}

/-! ## Blocks -/

lemma wp_loadWord {Q : Word → Img → Prop} {b : ℕ} :
    wp (loadWord b i) s Q E P ↔ Q (s.disk b i) s := Iff.rfl

lemma wp_storeWord {Q : Unit → Img → Prop} {b : ℕ} {w : Word} :
    wp (storeWord b i w) s Q E P ↔ Q () { s with disk := s.disk.store b i w } := Iff.rfl

lemma wp_changeBlock {Q : Unit → Img → Prop} {b : ℕ} {change : Block → Block} :
    wp (changeBlock b change) s Q E P ↔
      Q () { s with disk := Function.update s.disk b (change (s.disk b)) } := Iff.rfl

lemma wp_nextBlock {Q : ℕ → Img → Prop}
    (hok : s.nextbno < NBLOCK → Q s.nextbno { s with nextbno := s.nextbno + 1 })
    (hfail : NBLOCK ≤ s.nextbno → P .outOfDisk) : wp nextBlock s Q E P := by
  rw [nextBlock, wp_bind, wp_get, wp_ite]
  refine ⟨fun h => ?_, fun h => hfail (not_lt.mp h)⟩
  rw [wp_bind, wp_set, wp_pure]
  exact hok h

/-- `save_block_link` puts the number in its slot; a missing indirect block is the next one. -/
lemma wp_saveBlockLink {Q : Unit → Img → Prop} (h : v.Holder f nb m) (hm : m < NBLOCK)
    (hnb : nb < NINDIRECT)
    (hok : m + 1 + indexCost nb ≤ NBLOCK → Q () ⟨v.linked f nb m, m + 1 + indexCost nb⟩)
    (hfail : NBLOCK < m + 1 + indexCost nb → P .outOfDisk) :
    wp (saveBlockLink f nb m) ⟨v, m + 1⟩ Q E P := by
  rw [saveBlockLink, wp_bind, assert, if_pos (decide_eq_true hnb), wp_pure, wp_ite]
  refine ⟨fun hdir => ?_, fun hdir => ?_⟩
  · have hcost : indexCost nb = 0 := if_neg hdir.ne
    rw [hcost] at hok
    rw [wp_storeWord]
    have hres := hok (Nat.succ_le_of_lt hm)
    rwa [View.linked, if_pos hdir] at hres
  · rw [wp_bind, wp_loadWord]
    dsimp only
    rw [wp_ite]
    refine ⟨fun h0 => ?_, fun h0 => ?_⟩
    · -- there is no indirect block yet
      have heq : nb = NDIRECT := by
        by_contra hne
        refine (h.index (by omega)).1 ?_
        rw [num_indirect, h0]
        rfl
      have hcost : indexCost nb = 1 := if_pos heq
      rw [hcost] at hok hfail
      rw [wp_bind]
      refine wp_nextBlock (fun hlt => ?_) fun hge => hfail (Nat.lt_succ_of_le hge)
      change m + 1 < NBLOCK at hlt
      rw [wp_bind, wp_storeWord, wp_bind, wp_loadWord, wp_storeWord]
      have hself : (v.store f.block (f.word + F_INDIRECT) (BitVec.ofNat 32 (m + 1)) f.block
          (f.word + F_INDIRECT)).toNat = m + 1 := by
        rw [View.store_apply, if_pos ⟨rfl, rfl⟩, toNat_of_le_NBLOCK hlt.le]
      have hres := hok (Nat.succ_le_of_lt hlt)
      rw [View.linked, if_neg hdir, if_pos heq] at hres
      change Q () ⟨View.store _ (View.store v f.block (f.word + F_INDIRECT)
        (BitVec.ofNat 32 (m + 1)) f.block (f.word + F_INDIRECT)).toNat nb (BitVec.ofNat 32 m), _⟩
      rw [hself]
      exact hres
    · have hne : nb ≠ NDIRECT := by
        intro heq
        refine h0 (BitVec.eq_of_toNat_eq ?_)
        exact h.noIndex heq.le
      have hcost : indexCost nb = 0 := if_neg hne
      rw [hcost] at hok
      rw [wp_bind, wp_loadWord, wp_storeWord]
      have hres := hok (Nat.succ_le_of_lt hm)
      rwa [View.linked, if_neg hdir, if_neg hne] at hres

/-! ## The entry for a new file -/

lemma unusedIn_none {blk : Block} {j : ℕ}
    (h : ∀ k, j ≤ k → k < j + n → blk.byte (256 * k) ≠ 0#8) : unusedIn blk j n = none := by
  induction n generalizing j with
  | zero => rw [unusedIn]
  | succ n ih =>
      rw [unusedIn, if_neg (h j le_rfl (by omega))]
      exact ih fun k hlo hhi => h k (by omega) (by omega)

lemma unusedIn_some {blk : Block} {j k : ℕ} (h : ∀ l, j ≤ l → l < k → blk.byte (256 * l) ≠ 0#8)
    (hlo : j ≤ k) (hhi : k < j + n) (hk : blk.byte (256 * k) = 0#8) :
    unusedIn blk j n = some k := by
  induction n generalizing j with
  | zero => omega
  | succ n ih =>
      rw [unusedIn]
      rcases Nat.lt_or_eq_of_le hlo with hlt | rfl
      · rw [if_neg (h j le_rfl hlt)]
        exact ih (fun l hl hlk => h l (by omega) hlk) hlt (by omega)
      · rw [if_pos hk]

/-- The search goes through the blocks of the directory. -/
lemma unusedFrom_succ (h : v.Holder d nb m) (hi : i < nb) :
    unusedFrom v d i (n + 1) = (unusedIn (v (v.num d (.of i))) 0 FILE2BLK).elim
      (unusedFrom v d (i + 1) n) fun j => some (.entry (v.num d (.of i)) j) := by
  have hbno : (if i < NDIRECT then (v d.block (d.word + F_DIRECT + i)).toNat
      else (v (v d.block (d.word + F_INDIRECT)).toNat i).toNat) = v.num d (.of i) := by
    split_ifs with hdir
    · rw [num_of_lt hdir]
    · rw [num_of_ge (not_lt.mp hdir) (h.index (by omega)).1, num_indirect]
  rw [unusedFrom, hbno]
  cases unusedIn (v (v.num d (.of i))) 0 FILE2BLK <;> rfl

lemma byte_entry {k : ℕ} : (v (v.slot d k).block).byte (256 * (k % FILE2BLK)) ≠ 0#8 ↔
    v.Named (v.slot d k) := by
  have hmul : 4 * (v.slot d k).word = 256 * (k % FILE2BLK) := by
    rw [slot_word]
    omega
  rw [View.Named, hmul]

/-- The first unused entry is entry `n`, if it is in one of the blocks. -/
lemma unusedFrom_eq (h : v.DirAt d nb n m) :
    ∀ k i, i + k = nb → FILE2BLK * i ≤ n →
      unusedFrom v d i k = if n < FILE2BLK * nb then some (v.slot d n) else none := by
  intro k
  induction k with
  | zero =>
      intro i hi hle
      rw [unusedFrom, if_neg]
      rw [← hi, Nat.add_zero]
      exact not_lt.mpr hle
  | succ k ih =>
      intro i hi hle
      have hib : i < nb := by omega
      rw [unusedFrom_succ h.holder hib]
      -- entry `j` of the block is entry `16 * i + j` of the directory
      have hentry : ∀ j < FILE2BLK, (v (v.num d (.of i))).byte (256 * j) ≠ 0#8 ↔
          v.Named (v.slot d (FILE2BLK * i + j)) := by
        intro j hj
        have hdiv : (FILE2BLK * i + j) / FILE2BLK = i := by
          simp only [FILE2BLK] at *
          omega
        have hmod : (FILE2BLK * i + j) % FILE2BLK = j := by
          simp only [FILE2BLK] at *
          omega
        rw [← byte_entry, slot_block, hdiv, hmod]
      by_cases hhere : n < FILE2BLK * (i + 1)
      · have hlt : n < FILE2BLK * nb := hhere.trans_le (Nat.mul_le_mul_left _ hib)
        have hdiv : n / FILE2BLK = i := by
          simp only [FILE2BLK] at *
          omega
        have hn' : FILE2BLK * i + n % FILE2BLK = n := by
          rw [← hdiv]
          exact Nat.div_add_mod n FILE2BLK
        have hmod : n % FILE2BLK < FILE2BLK := Nat.mod_lt _ (by decide)
        have hfound : unusedIn (v (v.num d (.of i))) 0 FILE2BLK = some (n % FILE2BLK) := by
          refine unusedIn_some (fun l _ hl => ?_) (Nat.zero_le _) (by omega) ?_
          · exact (hentry l (hl.trans hmod)).mpr (h.named _ (by omega))
          · by_contra hne
            have hnamed := (hentry _ hmod).mp hne
            rw [hn'] at hnamed
            refine hnamed ?_
            have hzero := h.zero n le_rfl hlt 0 (by decide)
            rw [Nat.add_zero] at hzero
            rw [Block.byte, Nat.mul_div_cancel_left _ (by decide), hzero]
            exact byte_zero _
        rw [hfound, Option.elim_some, if_pos hlt, View.slot, hdiv]
      · have hnone : unusedIn (v (v.num d (.of i))) 0 FILE2BLK = none := by
          refine unusedIn_none fun j _ hj => ?_
          rw [Nat.zero_add] at hj
          refine (hentry j hj).mpr (h.named _ ?_)
          simp only [FILE2BLK] at *
          omega
        rw [hnone, Option.elim_none]
        exact ih (i + 1) (by omega) (not_lt.mp hhere)

/-- `create_file` finds entry `n` or makes a block for it. -/
lemma wp_createFile {Q : FileRef → Img → Prop} (h : v.DirAt d (blocksOf n) n m) (hm : m ≤ NBLOCK)
    (hok : ∀ v' m', v.Created d n m v' m' → Q (v'.slot d n) ⟨v', m'⟩)
    (hfail : NBLOCK < m + slotCost n → P .outOfDisk) : wp (createFile d) ⟨v, m⟩ Q E P := by
  have hdiv : (v d.block (d.word + F_SIZE)).toNat / BY2BLK = blocksOf n := by
    have hsize := h.size
    rw [View.field] at hsize
    rw [hsize, Nat.mul_div_cancel_left _ (by decide)]
  rw [createFile, wp_bind, wp_loadWord]
  dsimp only
  rw [wp_bind, wp_get, hdiv, unusedFrom_eq h (blocksOf n) 0 (Nat.zero_add _) (Nat.zero_le _)]
  by_cases hmod : n % FILE2BLK = 0
  · have hn := blocksOf_of_dvd hmod
    have hfull : ¬ n < FILE2BLK * blocksOf n := by
      simp only [FILE2BLK] at *
      omega
    rw [if_neg hfull]
    dsimp only
    have hcost : slotCost n = 1 + indexCost (blocksOf n) := by
      rw [slotCost, if_pos hmod, indexCost, hn]
      split_ifs <;> rfl
    rw [wp_bind, makeLinkBlock, wp_bind]
    refine wp_nextBlock (fun hlt => ?_) fun hge => hfail ?_
    swap
    · change NBLOCK ≤ m at hge
      omega
    change m < NBLOCK at hlt
    have hfew := h.holder.few
    have hsmall : blocksOf n < NINDIRECT := by
      simp only [NBLOCK] at hlt
      simp only [NINDIRECT]
      omega
    dsimp only
    rw [wp_bind]
    refine wp_saveBlockLink h.holder hlt hsmall (fun hfits => ?_) fun hover => hfail (by omega)
    rw [wp_bind, wp_loadWord, wp_bind, wp_storeWord, wp_pure, wp_pure]
    -- the size is still the one from before
    have hkeep : v.linked d (blocksOf n) m d.block (d.word + F_SIZE) = v.field d F_SIZE := by
      have hbelow := h.holder.below
      refine h.holder.only_linked _ _ ?_
      rintro (⟨hle, -⟩ | ⟨-, ⟨k, -, -, heq⟩ | ⟨-, heq⟩⟩ | ⟨hnb, heq, -⟩)
      · omega
      · simp only [F_SIZE, F_DIRECT] at heq
        omega
      · simp only [F_SIZE, F_INDIRECT] at heq
        omega
      · exact (h.holder.index hnb).2.2.1 heq.symm
    rw [hn] at h hfits hkeep ⊢
    have hc := h.created hmod hlt rfl hfits
    have hslot := hok _ _ hc
    rw [View.slot, hc.slotAt.block hmod, hmod, ← hkeep] at hslot
    exact hslot
  · have hn := blocksOf_of_mod hmod
    have hlt : n < FILE2BLK * blocksOf n := by
      simp only [FILE2BLK] at *
      omega
    rw [if_pos hlt]
    dsimp only
    rw [wp_pure]
    refine hok v m ⟨⟨?_, ?_, fun h0 => absurd h0 hmod, fun h0 => absurd h0 hmod⟩, ?_, .refl, hm⟩
    · rw [slotCost_of_mod hmod, Nat.add_zero]
    · have := h.small
      omega
    · rwa [blocksOf_succ, ← hn]

/-! ## Files -/

/-- The first `i` blocks of a file have been read. -/
structure Part (v₀ v : View) (f : FileRef) (data : List Byte) (m i m' : ℕ) : Prop where
  next : m' = fileBlock m i
  holder : v.Holder f i m'
  block : ∀ k < i, v.num f (.of k) = fileBlock m k
  index : v.num f .indirect = if NDIRECT < i then m + NDIRECT + 1 else 0
  byte : ∀ k, (hk : k < data.length) → k / BY2BLK < i →
    (v (fileBlock m (k / BY2BLK))).byte (k % BY2BLK) = data[k]
  only : View.Only (v₀.Growth f 0 m m') v₀ v
  blank : v.ZeroFrom m'
  fits : m' ≤ NBLOCK

lemma fileBlock_succ : fileBlock m (i + 1) = fileBlock m i + 1 + indexCost i := by
  simp only [fileBlock, indexCost]
  split_ifs <;> omega

section

variable {v₀ : View} {data : List Byte}

/-- Nothing has been read yet. -/
lemma Part.start (h : v.Holder f 0 m) (hblank : v.ZeroFrom m) (hm : m ≤ NBLOCK) :
    Part v v f data m 0 m where
  next := rfl
  holder := h
  block k hk := absurd hk (Nat.not_lt_zero k)
  index := by rw [h.noIndex (Nat.zero_le _), if_neg (Nat.not_lt_zero _)]
  byte k _ hk := absurd hk (Nat.not_lt_zero _)
  only := .refl
  blank := hblank
  fits := hm

/-- The piece of a file that is read into its block `i`. -/
lemma byte_piece {blk : Block} {k : ℕ} (hk : k < data.length) (hi : k / BY2BLK = i) :
    (blk.memcpy 0 ((data.drop (BY2BLK * i)).take BY2BLK)).byte (k % BY2BLK) = data[k] := by
  have hlen : k % BY2BLK < ((data.drop (BY2BLK * i)).take BY2BLK).length := by
    rw [List.length_take, List.length_drop]
    simp only [BY2BLK] at *
    omega
  have hsum : BY2BLK * i + k % BY2BLK = k := by
    rw [← hi]
    exact Nat.div_add_mod k BY2BLK
  have hbyte : (blk.memcpy 0 ((data.drop (BY2BLK * i)).take BY2BLK)).byte (0 + k % BY2BLK) =
      ((data.drop (BY2BLK * i)).take BY2BLK)[k % BY2BLK] := byte_memcpy hlen
  rw [Nat.zero_add] at hbyte
  rw [hbyte, List.getElem_take, List.getElem_drop]
  simp only [hsum]

/-- **One more block is read.** -/
lemma Part.step (h : Part v₀ v f data m i m') (hlt : m' < NBLOCK)
    (hfits : m' + 1 + indexCost i ≤ NBLOCK) :
    Part v₀ (View.linked (Function.update v m'
      ((v m').memcpy 0 ((data.drop (BY2BLK * i)).take BY2BLK))) f i m') f data m (i + 1)
      (m' + 1 + indexCost i) := by
  generalize hblk : (v m').memcpy 0 ((data.drop (BY2BLK * i)).take BY2BLK) = blk
  generalize hu : Function.update v m' blk = u
  have hother : ∀ b, b ≠ m' → ∀ j, u b j = v b j := by
    intro b hb j
    rw [← hu, Function.update_of_ne hb]
  have hself : u m' = blk := by rw [← hu, Function.update_self]
  have hsmall := h.holder.lt_NINDIRECT hlt
  obtain ⟨hholder, hnum⟩ := h.holder.congr hsmall.le fun b hb j => hother b hb.ne j
  have hbelow := hholder.below
  have hblank1 : ∀ j, u (m' + 1) j = 0#32 := by
    intro j
    rw [hother _ (Nat.succ_ne_self m'), h.blank _ (Nat.le_succ m')]
  obtain ⟨hnum', hind'⟩ := hholder.num_linked hlt hblank1
  have honly := hholder.only_linked
  have hof : ∀ k < i, View.num u f (.of k) = fileBlock m k := by
    intro k hk
    rw [hnum _ (Slot.data_of (hk.trans hsmall)).ok, h.block k hk]
  refine ⟨?_, hholder.linked hlt hsmall hblank1, fun k hk => ?_, ?_, fun k hk hki => ?_, ?_, ?_,
    hfits⟩
  · rw [fileBlock_succ, ← h.next]
  · rcases Nat.lt_succ_iff_lt_or_eq.mp hk with hki | rfl
    · rw [hnum' k (hki.trans hsmall), if_neg hki.ne, hof k hki]
    · rw [hnum' k hsmall, if_pos rfl, h.next]
  · rw [hind', hnum _ Slot.ok_indirect, h.index]
    have hnext := h.next
    rw [fileBlock] at hnext
    split_ifs at hnext ⊢ <;> omega
  · rcases Nat.lt_succ_iff_lt_or_eq.mp hki with hlow | heq
    · -- the block was there before
      rw [← hof _ hlow, hholder.block_kept honly hlow, hof _ hlow]
      have hne : fileBlock m (k / BY2BLK) ≠ m' := by
        rw [h.next]
        exact (fileBlock_lt hlow).ne
      have hkeep : u (fileBlock m (k / BY2BLK)) = v (fileBlock m (k / BY2BLK)) :=
        funext fun j => hother _ hne j
      rw [hkeep, h.byte k hk hlow]
    · -- the byte is in the piece that was read
      have hbyte : ((v m').memcpy 0 ((data.drop (BY2BLK * i)).take BY2BLK)).byte (k % BY2BLK) =
          data[k] := byte_piece hk heq
      rw [hblk] at hbyte
      rw [heq, ← h.next, hholder.linked_new, hself, hbyte]
  · have hle : m ≤ m' := h.next ▸ le_fileBlock
    refine (View.Only.mono h.only ?_).trans (View.Only.trans ?_ (View.Only.mono honly ?_))
    · rintro b j (⟨hlo, hhi⟩ | hg)
      · exact .inl ⟨hlo, by omega⟩
      · exact .inr hg
    · intro b j hnot
      exact hother b (fun heq => hnot (.inl ⟨by omega, by omega⟩)) j
    · rintro b j (⟨hlo, hhi⟩ | ⟨rfl, ⟨k, -, hk, rfl⟩ | ⟨-, rfl⟩⟩ | ⟨hi, heq, -⟩)
      · exact .inl ⟨hle.trans hlo, hhi⟩
      · exact .inr (.inl ⟨rfl, .inl ⟨k, Nat.zero_le k, hk, rfl⟩⟩)
      · exact .inr (.inl ⟨rfl, .inr ⟨Nat.zero_le _, rfl⟩⟩)
      · -- the indirect block is one of the new ones
        have hlt' := (hholder.index hi).2.1
        rw [hnum _ Slot.ok_indirect, h.index, if_pos hi] at heq hlt'
        exact .inl ⟨by omega, by omega⟩
  · intro b hb j
    rw [honly, hother b (by omega), h.blank b (by omega)]
    rintro (⟨-, hhi⟩ | ⟨heq, -⟩ | ⟨hi, heq, -⟩)
    · omega
    · omega
    · have := (hholder.index hi).2.1
      omega

/-- The loop of `write_file`. -/
lemma wp_readBlocks (h : v.Holder f 0 m) (hblank : v.ZeroFrom m) (hm : m ≤ NBLOCK)
    (hfail : NBLOCK < fileBlock m (chunks data) → P .outOfDisk) :
    wp (forRange (fun iblk => do
      readNext ((data.drop (BY2BLK * iblk)).take BY2BLK)
      let bno ← nextBlock
      saveBlockLink f iblk bno) 0 (chunks data)) ⟨v, m⟩
      (fun _ s' => Part v s'.disk f data m (chunks data) s'.nextbno) E P := by
  have hloop := @wp_forRange _ _ _ E P (fun iblk => do
      readNext ((data.drop (BY2BLK * iblk)).take BY2BLK)
      let bno ← nextBlock
      saveBlockLink f iblk bno)
    (fun i s => Part v s.disk f data m i s.nextbno) (chunks data) 0 (s := ⟨v, m⟩)
    (Part.start h hblank hm) ?_
  · rwa [Nat.zero_add] at hloop
  rintro i ⟨w, m'⟩ - hi hpart
  rw [Nat.zero_add] at hi
  change Part v w f data m i m' at hpart
  have hle : fileBlock m (i + 1) ≤ fileBlock m (chunks data) := by
    rcases Nat.lt_or_eq_of_le (Nat.succ_le_of_lt hi) with hlt | heq
    · exact (fileBlock_lt hlt).le
    · exact heq ▸ le_rfl
  have hnext := hpart.next
  have hsucc := @fileBlock_succ m i
  rw [wp_bind, readNext, wp_bind, wp_get, wp_ite]
  refine ⟨fun hlt => ?_, fun hge => hfail ?_⟩
  · change m' < NBLOCK at hlt
    rw [wp_changeBlock, wp_bind]
    refine wp_nextBlock (fun _ => ?_) fun hge => absurd hlt (not_lt.mpr hge)
    dsimp only
    have hsmall := hpart.holder.lt_NINDIRECT hlt
    have hholder : View.Holder (Function.update w m' ((w m').memcpy 0
        ((data.drop (BY2BLK * i)).take BY2BLK))) f i m' :=
      (hpart.holder.congr hsmall.le fun b hb j => by rw [Function.update_of_ne hb.ne]).1
    exact wp_saveBlockLink hholder hlt hsmall (fun hfits => hpart.step hlt hfits) fun hover =>
      hfail (by omega)
  · change ¬ m' < NBLOCK at hge
    omega

end

/-- The name, the size and the type of an entry are written. -/
structure Header (v v' : View) (e : FileRef) (name : List Byte) (size type : Word) : Prop where
  only : ∀ b i, ¬ (b = e.block ∧ e.word ≤ i ∧ i < e.word + F_DIRECT) → v' b i = v b i
  name : v'.name e = name
  size : v'.field e F_SIZE = size
  type : v'.field e F_TYPE = type

section

variable {name : List Byte} {size type : Word}

lemma Header.zone (h : Header v v' e name size type) (m m' : ℕ) :
    View.Only (e.Zone m m') v v' := by
  intro b i hnot
  refine h.only b i ?_
  rintro ⟨rfl, hlo, hhi⟩
  refine hnot (.inr ⟨rfl, hlo, ?_⟩)
  simp only [F_DIRECT] at hhi
  omega

lemma Header.blank (h : Header v v' e name size type) (hb : v.ZeroFrom m) (hlt : e.block < m) :
    v'.ZeroFrom m := by
  intro b hm i
  rw [h.only b i fun hand => by omega, hb b hm]

/-- The entry has no blocks yet. -/
lemma Header.holder (h : Header v v' e name size type) (hlt : e.block < m) (hm : 3 ≤ m)
    (hzero : ∀ i < 64, v e.block (e.word + i) = 0#32) : v'.Holder e 0 m := by
  refine View.Holder.of_zero hlt hm fun k hlo hhi => ?_
  rw [View.field, h.only, hzero]
  · simp only [F_INDIRECT] at hhi
    omega
  · rintro ⟨-, -, hk⟩
    omega

/-- A block that a name was written to. -/
lemma name_update {blk : Block} (hstr : blk.strEq (4 * e.word) name = true) (hok : NameOk name)
    (h : ∀ k < 32, v e.block (e.word + k) = blk (e.word + k)) : v.name e = name := by
  have hname := (strEq_iff hok.2.1 hok.2.2.2).mp hstr
  rw [View.name, ← hname]
  apply str_congr
  intro k hk
  have hdiv : (4 * e.word + k) / 4 = e.word + k / 4 := by omega
  simp only [MAXNAMELEN] at hk
  rw [Block.byte, Block.byte, hdiv, h _ (by omega)]

/-- Only the first words of an entry change when its blocks are handed out. -/
lemma not_growth {k : ℕ} (hlt : f.block < m) (hk : k < F_DIRECT) :
    ¬ v.Growth f 0 m m' f.block (f.word + k) := by
  rintro (⟨hle, -⟩ | ⟨-, ⟨l, -, -, heq⟩ | ⟨-, heq⟩⟩ | ⟨h0, -⟩)
  · omega
  · omega
  · simp only [F_DIRECT, F_INDIRECT] at heq hk
    omega
  · exact Nat.not_lt_zero _ h0

/-- What `write_file` writes to an entry. -/
lemma Header.of_strcpy (hok : NameOk name) :
    Header v (View.store (View.store (Function.update v e.block
      ((v e.block).strcpy (4 * e.word) name)) e.block (e.word + F_SIZE) size)
      e.block (e.word + F_TYPE) type) e name size type := by
  have hlen := hok.2.2.2
  simp only [MAXNAMELEN] at hlen
  refine ⟨fun b i hnot => ?_, ?_, ?_, ?_⟩
  · rw [View.store_apply, if_neg, View.store_apply, if_neg]
    · by_cases hb : b = e.block
      · rw [hb, Function.update_self, word_strcpy]
        have : i < e.word ∨ e.word + F_DIRECT ≤ i := by
          by_contra hand
          exact hnot ⟨hb, by omega, by omega⟩
        simp only [F_DIRECT] at this
        omega
      · rw [Function.update_of_ne hb]
    · rintro ⟨hb, rfl⟩
      exact hnot ⟨hb, by omega, by simp only [F_SIZE, F_DIRECT]; omega⟩
    · rintro ⟨hb, rfl⟩
      exact hnot ⟨hb, by omega, by simp only [F_TYPE, F_DIRECT]; omega⟩
  · have hstr : ((v e.block).strcpy (4 * e.word) name).strEq (4 * e.word) name = true :=
      strEq_strcpy
    refine name_update hstr hok fun k hk => ?_
    rw [View.store_apply, if_neg, View.store_apply, if_neg, Function.update_self]
    · rintro ⟨-, heq⟩
      simp only [F_SIZE] at heq
      omega
    · rintro ⟨-, heq⟩
      simp only [F_TYPE] at heq
      omega
  · rw [View.field, View.store_apply, if_neg, View.store_apply, if_pos ⟨rfl, rfl⟩]
    rintro ⟨-, heq⟩
    simp only [F_SIZE, F_TYPE] at heq
    omega
  · rw [View.field, View.store_apply, if_pos ⟨rfl, rfl⟩]

/-- The last byte of a name that is all zero. -/
lemma byte_end (hzero : ∀ i < 64, v e.block (e.word + i) = 0#32) :
    (v e.block).byte (4 * e.word + (MAXNAMELEN - 1)) = 0#8 := by
  have hdiv : (4 * e.word + (MAXNAMELEN - 1)) / 4 = e.word + 31 := by
    simp only [MAXNAMELEN]
    omega
  rw [Block.byte, hdiv, hzero 31 (by decide), byte_zero]

/-- What `write_directory` writes to an entry. -/
lemma Header.of_strncpy (hok : NameOk name) (hzero : ∀ i < 64, v e.block (e.word + i) = 0#32) :
    Header v (View.store (Function.update v e.block
      ((v e.block).strncpy (4 * e.word) name (MAXNAMELEN - 1)))
      e.block (e.word + F_TYPE) type) e name 0#32 type := by
  have hlen := hok.2.2.2
  refine ⟨fun b i hnot => ?_, ?_, ?_, ?_⟩
  · rw [View.store_apply, if_neg]
    · by_cases hb : b = e.block
      · rw [hb, Function.update_self, word_strncpy]
        have : i < e.word ∨ e.word + F_DIRECT ≤ i := by
          by_contra hand
          exact hnot ⟨hb, by omega, by omega⟩
        simp only [F_DIRECT, MAXNAMELEN] at *
        omega
      · rw [Function.update_of_ne hb]
    · rintro ⟨hb, rfl⟩
      exact hnot ⟨hb, by omega, by simp only [F_TYPE, F_DIRECT]; omega⟩
  · have hshort : name.length ≤ MAXNAMELEN - 1 := Nat.le_sub_one_of_lt hlen
    have hstr : ((v e.block).strncpy (4 * e.word) name (MAXNAMELEN - 1)).strEq
        (4 * e.word) name = true := strEq_strncpy hshort (byte_end hzero)
    refine name_update hstr hok fun k hk => ?_
    rw [View.store_apply, if_neg, Function.update_self]
    rintro ⟨-, heq⟩
    simp only [F_TYPE] at heq
    omega
  · rw [View.field, View.store_apply, if_neg, Function.update_self, word_strncpy,
      hzero _ (by decide)]
    · right
      simp only [F_SIZE, MAXNAMELEN]
      omega
    · rintro ⟨-, heq⟩
      simp only [F_SIZE, F_TYPE] at heq
      omega
  · rw [View.field, View.store_apply, if_pos ⟨rfl, rfl⟩]

section

variable {u w : View} {data : List Byte}

lemma Part.kept {k : ℕ} (h : Part u w e data m i m') (hbelow : e.block < m) (hk : k < F_DIRECT) :
    w e.block (e.word + k) = u e.block (e.word + k) :=
  h.only _ _ (not_growth hbelow hk)

lemma Part.zone (h : Part u w e data m i m') : View.Only (e.Zone m m') u w := by
  refine View.Only.mono h.only ?_
  rintro b i (hnew | ⟨rfl, ⟨k, -, hk, rfl⟩ | ⟨-, rfl⟩⟩ | ⟨h0, -⟩)
  · exact .inl hnew
  · refine .inr ⟨rfl, by omega, ?_⟩
    simp only [F_DIRECT, NDIRECT] at *
    omega
  · refine .inr ⟨rfl, by omega, ?_⟩
    simp only [F_INDIRECT]
    omega
  · exact absurd h0 (Nat.not_lt_zero _)

/-- All blocks of a file have been read. -/
lemma Part.fileAt (h : Part u w e data m (chunks data) m') (hbelow : e.block < m)
    (hsize : u.field e F_SIZE = BitVec.ofNat 32 data.length)
    (htype : u.field e F_TYPE = FTYPE_REG) : w.FileAt e data m m' := by
  have hfew := h.holder.few
  have hfits := h.fits
  have hsmall : chunks data ≤ NINDIRECT := by
    simp only [NBLOCK] at hfits
    simp only [NINDIRECT]
    omega
  refine ⟨h.next, hsmall, (h.kept hbelow (by decide)).trans htype, ?_, h.block, h.holder.rest,
    h.index, fun k hk => h.byte k hk (div_lt_chunks hk)⟩
  have hfield : w.field e F_SIZE = BitVec.ofNat 32 data.length :=
    (h.kept hbelow (by decide)).trans hsize
  rw [hfield, BitVec.toNat_ofNat]
  apply Nat.mod_eq_of_lt
  simp only [chunks, BY2BLK, NINDIRECT] at hsmall
  omega

end

/-- **`write_file` lays out a file.** -/
lemma wp_writeFile {path data : List Byte} (h : v.DirAt d (blocksOf n) n m) (hm : m ≤ NBLOCK)
    (hok : NameOk (lastName path))
    (hfail : NBLOCK < fileBlock (m + slotCost n) (chunks data) → P .outOfDisk) :
    wp (writeFile d path data) ⟨v, m⟩ (fun _ s' => ∃ v₁ m₁, v.Created d n m v₁ m₁ ∧
      m₁ ≤ s'.nextbno ∧ View.Only ((v₁.slot d n).Zone m₁ s'.nextbno) v₁ s'.disk ∧
      s'.disk.name (v₁.slot d n) = lastName path ∧
      s'.disk.FileAt (v₁.slot d n) data m₁ s'.nextbno ∧ s'.disk.ZeroFrom s'.nextbno ∧
      s'.nextbno ≤ NBLOCK) E P := by
  rw [writeFile, wp_bind]
  refine wp_createFile h hm (fun v₁ m₁ hc => ?_) fun hover => hfail (hover.trans_le le_fileBlock)
  have hbelow := hc.room.slot_below lt_room
  have hzero := hc.room.zero n le_rfl lt_room
  have hthree : 3 ≤ m₁ := by
    have := hc.room.holder.few
    omega
  generalize he : v₁.slot d n = e at hbelow hzero ⊢
  rw [wp_bind, wp_changeBlock, wp_bind, wp_storeWord, wp_bind, wp_storeWord]
  dsimp only
  generalize hu : View.store (View.store _ _ _ _) _ _ _ = u
  have hheader : Header v₁ u e (lastName path) (BitVec.ofNat 32 data.length) FTYPE_REG := by
    rw [← hu]
    exact Header.of_strcpy hok
  have hnext := hc.slotAt.next
  refine (wp_readBlocks (hheader.holder hbelow hthree hzero)
    (hheader.blank hc.room.blank hbelow) hc.fits fun hover => hfail (hnext ▸ hover)).mono ?_
    (fun _ _ hE => hE) fun _ hP => hP
  rintro - ⟨w, m₂⟩ hpart
  change Part u w e data m₁ (chunks data) m₂ at hpart
  refine ⟨v₁, m₁, hc, hpart.next ▸ le_fileBlock, ?_, ?_, ?_, hpart.blank, hpart.fits⟩
  · rw [he]
    exact (hheader.zone m₁ m₂).trans hpart.zone
  · rw [he, ← hheader.name]
    exact name_congr fun k hk => hpart.kept hbelow (hk.trans (by decide))
  · rw [he]
    exact hpart.fileAt hbelow hheader.size hheader.type

end

/-! ## Directories -/

section

variable {path name : List Byte}

/-- The name is what follows the last slash. -/
lemma lastName_append (h : slash ∉ name) : lastName (path ++ slash :: name) = name := by
  have hall : ∀ c ∈ name.reverse, decide (c ≠ slash) = true := by
    intro c hc
    rw [decide_eq_true_iff]
    rintro rfl
    exact h (List.mem_reverse.mp hc)
  rw [lastName, List.reverse_append, List.reverse_cons, List.append_assoc,
    List.takeWhile_append_of_pos hall, List.singleton_append, List.takeWhile_cons_of_neg (by simp),
    List.append_nil, List.reverse_reverse]

lemma trimSlashes_append (h : slash ∉ name) (hne : name ≠ []) :
    trimSlashes (path ++ slash :: name) = path ++ slash :: name := by
  obtain ⟨c, rest, hrev⟩ := List.exists_cons_of_ne_nil (List.reverse_ne_nil_iff.mpr hne)
  have hc : c ≠ slash := by
    rintro rfl
    exact h (List.mem_reverse.mp (hrev ▸ List.mem_cons_self))
  rw [trimSlashes, List.reverse_append, List.reverse_cons, hrev, List.cons_append, List.cons_append,
    List.dropWhile_cons_of_neg (by simpa using hc), ← List.cons_append, ← List.cons_append, ← hrev,
    ← List.reverse_cons, ← List.reverse_append, List.reverse_reverse]

lemma basename_append (h : slash ∉ name) (hne : name ≠ []) :
    basename (path ++ slash :: name) = (name, path ++ slash :: name) := by
  have hpath : path ++ slash :: name ≠ [] := by simp
  rw [basename, if_neg hpath, trimSlashes_append h hne, if_neg hpath, lastName_append h]

end

section

variable {path : List Byte}

/-- **`write_directory` makes an empty directory.** -/
lemma wp_makeDirectory {Q : FileRef × List Byte → Img → Prop} (h : v.DirAt d (blocksOf n) n m)
    (hm : m ≤ NBLOCK) (hname : NameOk (basename path).1)
    (hok : ∀ v₁ u m₁, v.Created d n m v₁ m₁ →
      Header v₁ u (v₁.slot d n) (basename path).1 0#32 FTYPE_DIR →
      Q (v₁.slot d n, (basename path).2) ⟨u, m₁⟩)
    (hfail : NBLOCK < m + slotCost n → P .outOfDisk) :
    wp (makeDirectory d path) ⟨v, m⟩ Q E P := by
  rw [makeDirectory, wp_bind]
  refine wp_createFile h hm (fun v₁ m₁ hc => ?_) hfail
  have hzero := hc.room.zero n le_rfl lt_room
  have hok₁ := hok v₁
  generalize v₁.slot d n = e at hzero hok₁ ⊢
  rw [wp_bind, wp_changeBlock, wp_bind, wp_get]
  dsimp only
  have hcheck : Block.byte (Function.update v₁ e.block
      ((v₁ e.block).strncpy (4 * e.word) (basename path).1 (MAXNAMELEN - 1)) e.block)
      (4 * e.word + (MAXNAMELEN - 1)) = 0#8 := by
    rw [Function.update_self, byte_strncpy (.inr le_rfl)]
    exact byte_end hzero
  rw [hcheck, if_neg (not_not.mpr rfl), wp_bind, wp_storeWord, wp_pure]
  exact hok₁ _ m₁ hc (Header.of_strncpy hname hzero)

end

/-- **What writing entries leaves.** -/
structure Wrote (v : View) (d : FileRef) (n : ℕ) (es : Entries) (m : ℕ) (v' : View) (m' : ℕ) :
    Prop where
  next : m' = m + es.cost n
  fits : m' ≤ NBLOCK
  laid : v'.Laid d n es m m'
  only : View.Only (v.Zone d n m m') v v'
  blank : v'.ZeroFrom m'

section

variable {v₁ v₂ v₃ u : View} {m₁ m₂ m₃ : ℕ} {name data : List Byte} {inner rest : Entries}

lemma fileBlock_add : fileBlock m i = m + fileBlock 0 i := by
  rw [fileBlock, fileBlock]
  omega

/-- There are no entries left. -/
lemma Wrote.nil (h : v.DirAt d (blocksOf n) n m) (hm : m ≤ NBLOCK) : Wrote v d n .nil m v m where
  next := rfl
  fits := hm
  laid := .nil ⟨h.size, h.small, h.holder.rest, h.holder.noIndex, fun k hle hk hnamed => by
    have hzero := h.zero k hle hk 0 (by decide)
    rw [Nat.add_zero] at hzero
    refine hnamed ?_
    rw [Block.byte, Nat.mul_div_cancel_left _ (by decide), hzero, byte_zero]⟩
  only := .refl
  blank := h.blank

/-- A file, and the entries after it. -/
lemma Wrote.file (hroom : v.DirAt d (blocksOf n) n m) (hc : v.Created d n m v₁ m₁)
    (hle : m₁ ≤ m₂) (ho : View.Only ((v₁.slot d n).Zone m₁ m₂) v₁ v₂)
    (hname : v₂.name (v₁.slot d n) = name) (hfile : v₂.FileAt (v₁.slot d n) data m₁ m₂)
    (hroom₂ : v₂.DirAt d (blocksOf (n + 1)) (n + 1) m₂)
    (hrest : Wrote v₂ d (n + 1) rest m₂ v₃ m₃) : Wrote v d n (.file name data rest) m v₃ m₃ := by
  have hle' := hrest.laid.spread.le
  have hkept := fun {b i} hb => hc.kept hle ho hrest.only (b := b) (i := i) hb
  obtain ⟨hslotAt, hslot⟩ := hc.slotAt_kept ho hroom₂ hrest.only
  refine ⟨?_, hrest.fits, .file hslotAt ?_ ?_ hrest.laid,
    hc.only_next hle hle' hroom ho hrest.only, hrest.blank⟩
  · rw [hrest.next, hfile.next, hc.slotAt.next, fileBlock_add, Entries.cost]
    omega
  · rw [hslot, ← hname]
    exact name_congr fun k hk => hkept (.inr ⟨rfl, by omega, by omega⟩)
  · rw [hslot]
    exact hfile.congr (fun i hlo hhi => hkept (.inr ⟨rfl, hlo, hhi⟩))
      fun b hlo hhi i => hkept (.inl ⟨hlo, hhi⟩)

/-- What a directory is after its entries have been written. -/
lemma Wrote.directory (h : Header v₁ u e name 0#32 FTYPE_DIR) (hbelow : e.block < m₁)
    (hinner : Wrote u e 0 inner m₁ v₂ m₂) :
    View.Only (e.Zone m₁ m₂) v₁ v₂ ∧ v₂.name e = name ∧ v₂.IsDir e := by
  have hkeep : ∀ k < F_DIRECT, k ≠ F_SIZE → v₂ e.block (e.word + k) = u e.block (e.word + k) := by
    intro k hk hne
    refine hinner.only _ _ ?_
    rintro (hg | ⟨-, heq⟩ | ⟨h0, -⟩)
    · exact not_growth hbelow hk hg
    · omega
    · exact h0 rfl
  refine ⟨(h.zone m₁ m₂).trans (View.Only.mono hinner.only ?_), ?_, ?_⟩
  · rintro b i ((hnew | ⟨rfl, ⟨k, -, hk, rfl⟩ | ⟨-, rfl⟩⟩ | ⟨h0, -⟩) | ⟨rfl, rfl⟩ | ⟨h0, -⟩)
    · exact .inl hnew
    · refine .inr ⟨rfl, by omega, ?_⟩
      simp only [F_DIRECT, NDIRECT] at *
      omega
    · refine .inr ⟨rfl, by omega, ?_⟩
      simp only [F_INDIRECT]
      omega
    · exact absurd h0 (Nat.not_lt_zero _)
    · refine .inr ⟨rfl, by omega, ?_⟩
      simp only [F_SIZE]
      omega
    · exact absurd rfl h0
  · rw [← h.name]
    refine name_congr fun k hk => hkeep k (hk.trans (by decide)) ?_
    simp only [F_SIZE]
    omega
  · exact (hkeep F_TYPE (by decide) (by decide)).trans h.type

/-- A directory with what is in it, and the entries after it. -/
lemma Wrote.dir (hroom : v.DirAt d (blocksOf n) n m) (hc : v.Created d n m v₁ m₁)
    (hheader : Header v₁ u (v₁.slot d n) name 0#32 FTYPE_DIR)
    (hinner : Wrote u (v₁.slot d n) 0 inner m₁ v₂ m₂)
    (hroom₂ : v₂.DirAt d (blocksOf (n + 1)) (n + 1) m₂)
    (hrest : Wrote v₂ d (n + 1) rest m₂ v₃ m₃) : Wrote v d n (.dir name inner rest) m v₃ m₃ := by
  have hle := hinner.laid.spread.le
  have hle' := hrest.laid.spread.le
  obtain ⟨ho, hname, hdir⟩ := hinner.directory hheader (hc.room.slot_below lt_room)
  have hkept := fun {b i} hb => hc.kept hle ho hrest.only (b := b) (i := i) hb
  have hfield : ∀ k < 64, v₃.field (v₁.slot d n) k = v₂.field (v₁.slot d n) k :=
    fun k hk => hkept (.inr ⟨rfl, by omega, by omega⟩)
  obtain ⟨hslotAt, hslot⟩ := hc.slotAt_kept ho hroom₂ hrest.only
  refine ⟨?_, hrest.fits, .dir hslotAt ?_ ?_ ?_ hrest.laid,
    hc.only_next hle hle' hroom ho hrest.only, hrest.blank⟩
  · rw [hrest.next, hinner.next, hc.slotAt.next, Entries.cost]
    omega
  · rw [hslot, ← hname]
    exact name_congr fun k hk => hkept (.inr ⟨rfl, by omega, by omega⟩)
  · rw [hslot, View.IsDir, hfield F_TYPE (by decide)]
    exact hdir
  · rw [hslot]
    refine hinner.laid.congr (fun sl hsl => ?_) (hfield F_SIZE (by decide))
      (fun b hlo hhi i => hkept (.inl ⟨hlo, hhi⟩)) fun h0 => absurd rfl h0
    refine num_congr (fun k _ hk => hfield k (hk.trans_lt (by decide))) (fun hne i => ?_) hsl
    obtain ⟨hlo, hhi⟩ := hinner.laid.spread.range (v₁.slot d n, .indirect)
      (.inl ⟨rfl, mem_later_zero.mpr Slot.ok_indirect⟩) hne
    exact hkept (.inl ⟨hlo, hhi⟩)

lemma named_of_name (h : v.name e = name) (hne : name ≠ []) : v.Named e := by
  by_contra hnot
  exact hne (h.symm.trans (name_eq_nil.mpr hnot))

/-- A new directory has room for entries. -/
lemma Header.room (h : Header v v' e name 0#32 FTYPE_DIR) (hlt : e.block < m) (hm : 3 ≤ m)
    (hzero : ∀ i < 64, v e.block (e.word + i) = 0#32) (hb : v.ZeroFrom m) : v'.DirAt e 0 0 m where
  holder := h.holder hlt hm hzero
  small := Nat.zero_le _
  size := by rw [h.size]; rfl
  named k hk := absurd hk (Nat.not_lt_zero k)
  zero k _ hk := absurd hk (Nat.not_lt_zero k)
  blank := h.blank hb hlt

/-- A file is written, and then the rest. -/
lemma wp_file_rest {path : List Byte} {p : FormatM Unit} (h : v.DirAt d (blocksOf n) n m)
    (hm : m ≤ NBLOCK) (hname : lastName path = name) (hok : NameOk name)
    (hfail : NBLOCK < m + Entries.cost n (.file name data rest) → P .outOfDisk)
    (hrest : ∀ v₂ m₂, v₂.DirAt d (blocksOf (n + 1)) (n + 1) m₂ → m₂ ≤ NBLOCK →
      m₂ + rest.cost (n + 1) = m + Entries.cost n (.file name data rest) →
      wp p ⟨v₂, m₂⟩ (fun _ s' => Wrote v₂ d (n + 1) rest m₂ s'.disk s'.nextbno) E P) :
    wp (writeFile d path data) ⟨v, m⟩ (fun _ s₁ => wp p s₁
      (fun _ s' => Wrote v d n (.file name data rest) m s'.disk s'.nextbno) E P) E P := by
  subst hname
  refine (wp_writeFile h hm hok fun hover => hfail ?_).mono ?_ (fun _ _ hE => hE) fun _ hP => hP
  · rw [fileBlock_add] at hover
    rw [Entries.cost]
    omega
  rintro - ⟨v₂, m₂⟩ ⟨v₁, m₁, hc, hle, ho, hname, hfile, hblank, hfits⟩
  dsimp only at hle ho hname hfile hblank hfits
  have hroom₂ := hc.next hle ho (named_of_name hname hok.1) hblank
  refine (hrest v₂ m₂ hroom₂ hfits ?_).mono (fun _ s' hw => ?_) (fun _ _ hE => hE) fun _ hP => hP
  · rw [hfile.next, hc.slotAt.next, fileBlock_add, Entries.cost]
    omega
  · exact hw.file h hc hle ho hname hfile hroom₂

/-- A directory is written with what is in it, and then the rest. -/
lemma wp_directory_rest {path : List Byte} {p : FormatM Unit} (h : v.DirAt d (blocksOf n) n m)
    (hm : m ≤ NBLOCK) (hname : (basename path).1 = name) (hok : NameOk name)
    (hfail : NBLOCK < m + Entries.cost n (.dir name inner rest) → P .outOfDisk)
    (hinner : ∀ e u m₁, u.DirAt e 0 0 m₁ → m₁ ≤ NBLOCK →
      (NBLOCK < m₁ + inner.cost 0 → P .outOfDisk) →
      wp (writeEntries e (basename path).2 inner) ⟨u, m₁⟩
        (fun _ s' => Wrote u e 0 inner m₁ s'.disk s'.nextbno) E P)
    (hrest : ∀ v₂ m₂, v₂.DirAt d (blocksOf (n + 1)) (n + 1) m₂ → m₂ ≤ NBLOCK →
      m₂ + rest.cost (n + 1) = m + Entries.cost n (.dir name inner rest) →
      wp p ⟨v₂, m₂⟩ (fun _ s' => Wrote v₂ d (n + 1) rest m₂ s'.disk s'.nextbno) E P) :
    wp (makeDirectory d path) ⟨v, m⟩ (fun r s₁ => wp (writeEntries r.1 r.2 inner) s₁
      (fun _ s₂ => wp p s₂
        (fun _ s' => Wrote v d n (.dir name inner rest) m s'.disk s'.nextbno) E P) E P) E P := by
  subst hname
  refine wp_makeDirectory h hm hok (fun v₁ u m₁ hc hheader => ?_) fun hover => hfail ?_
  swap
  · rw [Entries.cost]
    omega
  have hnext := hc.slotAt.next
  have hbelow := hc.room.slot_below lt_room
  have hroom₁ := hheader.room hbelow
    (by have := hc.room.holder.few; omega) (hc.room.zero n le_rfl lt_room) hc.room.blank
  refine (hinner _ u m₁ hroom₁ hc.fits fun hover => hfail ?_).mono ?_ (fun _ _ hE => hE)
    fun _ hP => hP
  · rw [Entries.cost]
    omega
  rintro - ⟨v₂, m₂⟩ hw
  dsimp only at hw
  obtain ⟨ho, hname, -⟩ := hw.directory hheader hbelow
  have hroom₂ := hc.next hw.laid.spread.le ho (named_of_name hname hok.1) hw.blank
  refine (hrest v₂ m₂ hroom₂ hw.fits ?_).mono (fun _ s' hw' => ?_) (fun _ _ hE => hE) fun _ hP => hP
  · rw [hw.next, hnext, Entries.cost]
    omega
  · exact Wrote.dir h hc hheader hw hroom₂ hw'

/-- **`writeEntries` lays the entries out**, if the blocks suffice; else it uses one that is not
there. -/
lemma wp_writeEntries {es : Entries} :
    ∀ {path : List Byte} {d : FileRef} {n : ℕ} {v : View} {m : ℕ}, es.Ok →
    v.DirAt d (blocksOf n) n m → m ≤ NBLOCK → (NBLOCK < m + es.cost n → P .outOfDisk) →
    wp (writeEntries d path es) ⟨v, m⟩ (fun _ s' => Wrote v d n es m s'.disk s'.nextbno) E P := by
  induction es with
  | nil =>
      intro path d n v m _ h hm _
      exact Wrote.nil h hm
  | file name data rest ih =>
      intro path d n v m hok h hm hfail
      rw [writeEntries, wp_bind]
      exact wp_file_rest h hm (lastName_append hok.1.2.2.1) hok.1 hfail
        fun v₂ m₂ hroom₂ hm₂ hcost => ih hok.2.2 hroom₂ hm₂ fun hover => hfail (hcost ▸ hover)
  | dir name inner rest ihinner ihrest =>
      intro path d n v m hok h hm hfail
      have hbase : basename (path ++ slash :: name) = (name, path ++ slash :: name) :=
        basename_append hok.1.2.2.1 hok.1.1
      rw [writeEntries, wp_bind]
      refine (wp_directory_rest (p := writeEntries d path rest) h hm (by rw [hbase]) hok.1 hfail
        (fun e u m₁ hroom₁ hm₁ hover => ihinner hok.2.2.1 hroom₁ hm₁ hover)
        fun v₂ m₂ hroom₂ hm₂ hcost => ?_).mono ?_ (fun _ _ hE => hE) fun _ hP => hP
      · exact ihrest hok.2.2.2 hroom₂ hm₂ fun hover => hfail (hcost ▸ hover)
      · rintro ⟨sub, subpath⟩ s₁ hrun
        rw [wp_bind]
        exact hrun

end

end Format

end MosRv.Fs
