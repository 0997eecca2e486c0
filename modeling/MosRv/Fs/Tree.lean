import MosRv.Fs.Check

/-!
# The tree of directories

The name of an entry is the string in `f_name` (`View.name`).  A directory *holds* an entry under
its name if the entry is in one of the blocks that the size of the directory covers, and a list of
names *leads* from a directory to a file if each name is held by the directory reached before it.
This is what a path means; how a path is walked is not part of it.

`View.IsTree` is what a well-formed tree is: the directories that can be reached have no holes, the
names in them end, and no two entries of one directory have the same name.

`SameTree` compares two views: the files are the same, with the same names and contents, but their
pointers to their parents may differ.  Then the same names lead to the same files
(`SameTree.leads`).
-/

namespace MosRv.Fs

open View

/-! ## Names -/

/-- The string at byte `i`, cut off after `n` bytes. -/
def Block.str (blk : Block) : (i n : ℕ) → List Byte
  | _, 0 => []
  | i, n + 1 => if blk.byte i = 0#8 then [] else blk.byte i :: blk.str (i + 1) n

/-- `f_name`. -/
def View.name (v : View) (f : FileRef) : List Byte := (v f.block).str (4 * f.word) MAXNAMELEN

section

variable {blk blk' : Block} {str : List Byte} {i n : ℕ}

/-- `strcmp` compares with the string that is there. -/
lemma strEq_iff (hstr : IsString str) (hlen : str.length < n) :
    blk.strEq i str = true ↔ blk.str i n = str := by
  induction str generalizing i n with
  | nil =>
      obtain ⟨n, rfl⟩ := Nat.exists_eq_add_one_of_ne_zero (Nat.ne_of_gt hlen)
      rw [Block.strEq, decide_eq_true_iff, Block.str]
      split_ifs with h0 <;> simp [h0]
  | cons a str ih =>
      obtain ⟨n, rfl⟩ := Nat.exists_eq_add_one_of_ne_zero (Nat.ne_of_gt (Nat.zero_lt_of_lt hlen))
      have ha : a ≠ 0#8 := fun h0 => hstr (h0 ▸ List.mem_cons_self)
      have hrest : IsString str := fun hm => hstr (List.mem_cons_of_mem a hm)
      rw [Block.strEq, decide_eq_true_iff, ih hrest (Nat.lt_of_succ_lt_succ hlen), Block.str]
      split_ifs with h0
      · rw [h0]
        simp [ha.symm]
      · rw [List.cons.injEq]

lemma str_congr (h : ∀ k < n, blk'.byte (i + k) = blk.byte (i + k)) :
    blk'.str i n = blk.str i n := by
  induction n generalizing i with
  | zero => rfl
  | succ n ih =>
      have h0 := h 0 (Nat.zero_lt_succ n)
      rw [Nat.add_zero] at h0
      rw [Block.str, Block.str, h0, ih fun k hk => by
        rw [Nat.add_assoc, Nat.add_comm 1 k]
        exact h (k + 1) (Nat.succ_lt_succ hk)]

end

/-! ## Trees -/

/-- A directory has an entry with the name, in a block that its size covers. -/
def View.Holds (v : View) (d : FileRef) (c : List Byte) (g : FileRef) : Prop :=
  ∃ i < (v.field d F_SIZE).toNat / BY2BLK, ∃ j < FILE2BLK,
    g = .entry (v.num d (.of i)) j ∧ v.name g = c

/-- The names lead from one file to another, through directories. -/
inductive View.Leads (v : View) : FileRef → List (List Byte) → FileRef → Prop
  | nil (f : FileRef) : v.Leads f [] f
  | cons {d g f : FileRef} {c : List Byte} {cs : List (List Byte)} (hdir : v.IsDir d) (hc : c ≠ [])
      (hg : v.Holds d c g) (hl : v.Leads g cs f) : v.Leads d (c :: cs) f

/-- The directory has all the blocks that its size covers. -/
def View.Filled (v : View) (d : FileRef) : Prop :=
  ∀ i < (v.field d F_SIZE).toNat / BY2BLK, i < NINDIRECT ∧ v.num d (.of i) ≠ 0

/-- **A well-formed tree of directories.** -/
structure View.IsTree (v : View) : Prop where
  filled : ∀ cs d, v.Leads .root cs d → v.IsDir d → v.Filled d
  ends : ∀ cs d c g, v.Leads .root cs d → v.IsDir d → v.Holds d c g → c.length < MAXNAMELEN
  unique : ∀ cs d c g g', v.Leads .root cs d → v.IsDir d → c ≠ [] → v.Holds d c g →
    v.Holds d c g' → g = g'

/-- The files are the same, but for their pointers to their parents; and so are the free entries of
the directories. -/
structure View.SameTree (v v' : View) : Prop where
  live : ∀ f, v'.Live ∅ f ↔ v.Live ∅ f
  field : ∀ f k, v.Live ∅ f → F_SIZE ≤ k → k < F_DIR → v'.field f k = v.field f k
  num : ∀ f sl, v.Live ∅ f → sl.Ok → v'.num f sl = v.num f sl
  name : ∀ d sl j, v.Live ∅ d → v.IsDir d → sl.Data → v.num d sl ≠ 0 → j < FILE2BLK →
    v'.name (.entry (v.num d sl) j) = v.name (.entry (v.num d sl) j)
  slot : ∀ d sl j k, v.Live ∅ d → v.IsDir d → sl.Data → v.num d sl ≠ 0 → j < FILE2BLK →
    F_SIZE ≤ k → k < F_DIR →
    v'.field (.entry (v.num d sl) j) k = v.field (.entry (v.num d sl) j) k
  data : ∀ f sl, v.Live ∅ f → ¬ v.IsDir f → sl.Data → v.num f sl ≠ 0 →
    v' (v.num f sl) = v (v.num f sl)
  free : ∀ b < v.nblocks, v'.Free b ↔ v.Free b
  nblocks : v'.nblocks = v.nblocks

section

variable {O : Set FileRef} {v v' v'' : View} {f f' g d : FileRef} {c : List Byte} {i j : ℕ}
variable {cs cs' : List (List Byte)} {sl : Slot}

/-- An entry has a name in the one sense if and only if it does in the other. -/
lemma name_eq_nil : v.name f = [] ↔ ¬ v.Named f := by
  rw [View.name, show MAXNAMELEN = 127 + 1 from rfl, Block.str, View.Named, not_not]
  split_ifs with h0 <;> simp [h0]

lemma View.Leads.append (h : v.Leads f cs g) (h' : v.Leads g cs' f') :
    v.Leads f (cs ++ cs') f' := by
  induction h with
  | nil => exact h'
  | cons hdir hc hg _ ih => exact .cons hdir hc hg (ih h')

/-- What a longer list of names leads through. -/
lemma View.leads_append :
    v.Leads f (cs ++ cs') g ↔ ∃ d, v.Leads f cs d ∧ v.Leads d cs' g := by
  refine ⟨fun h => ?_, fun ⟨_, h, h'⟩ => h.append h'⟩
  induction cs generalizing f with
  | nil => exact ⟨f, .nil f, h⟩
  | cons c cs ih =>
      cases h with
      | cons hdir hc hg hl =>
          obtain ⟨d, h₁, h₂⟩ := ih hl
          exact ⟨d, .cons hdir hc hg h₁, h₂⟩

lemma View.leads_nil : v.Leads f [] g ↔ f = g :=
  ⟨fun h => by cases h; rfl, fun h => h ▸ .nil f⟩

/-- One more name. -/
lemma View.leads_concat :
    v.Leads f (cs ++ [c]) g ↔ ∃ d, v.Leads f cs d ∧ v.IsDir d ∧ c ≠ [] ∧ v.Holds d c g := by
  rw [View.leads_append]
  refine exists_congr fun d => and_congr_right fun _ => ?_
  constructor
  · rintro (_ | ⟨hdir, hc, hg, hl⟩)
    cases hl
    exact ⟨hdir, hc, hg⟩
  · rintro ⟨hdir, hc, hg⟩
    exact .cons hdir hc hg (.nil g)

lemma View.IsTree.leads_unique (h : v.IsTree) (hf : v.Leads .root cs f) (hg : v.Leads .root cs g) :
    f = g := by
  induction cs using List.reverseRecOn generalizing f g with
  | nil => exact (View.leads_nil.mp hf).symm.trans (View.leads_nil.mp hg)
  | append_singleton cs c ih =>
      obtain ⟨d, hd, hdir, hc, hf⟩ := View.leads_concat.mp hf
      obtain ⟨d', hd', -, -, hg⟩ := View.leads_concat.mp hg
      obtain rfl := ih hd hd'
      exact h.unique cs d c f g hd hdir hc hf hg

/-- An entry that is held under a name is live. -/
lemma View.Holds.live (hg : v.Holds d c g) (hd : v.Live O d) (hdir : v.IsDir d) (hc : c ≠ [])
    (hfill : v.Filled d) : v.Live O g := by
  obtain ⟨i, hi, j, hj, rfl, hname⟩ := hg
  obtain ⟨hlt, hne⟩ := hfill i hi
  refine .entry hd hdir (Slot.data_of hlt) hne hj (.inl ?_)
  by_contra hnot
  exact hc (hname.symm.trans (name_eq_nil.mpr hnot))

/-- Every file of the tree is live. -/
lemma View.IsTree.live (h : v.IsTree) (hf : v.Leads .root cs f) : v.Live O f := by
  induction cs using List.reverseRecOn generalizing f with
  | nil =>
      obtain rfl := View.leads_nil.mp hf
      exact .root
  | append_singleton cs c ih =>
      obtain ⟨d, hd, hdir, hc, hg⟩ := View.leads_concat.mp hf
      exact hg.live (ih hd) hdir hc (h.filled cs d hd hdir)

/-! ## The same files -/

lemma View.SameTree.refl : SameTree v v where
  live _ := Iff.rfl
  field _ _ _ _ _ := rfl
  num _ _ _ _ := rfl
  name _ _ _ _ _ _ _ _ := rfl
  slot _ _ _ _ _ _ _ _ _ _ _ := rfl
  data _ _ _ _ _ _ := rfl
  free _ _ := Iff.rfl
  nblocks := rfl

lemma View.SameTree.isDir (h : SameTree v v') (hf : v.Live ∅ f) : v'.IsDir f ↔ v.IsDir f := by
  rw [View.IsDir, View.IsDir, h.field f F_TYPE hf (by decide) (by decide)]

lemma View.SameTree.trans (h : SameTree v v') (h' : SameTree v' v'') : SameTree v v'' where
  live f := (h'.live f).trans (h.live f)
  field f k hf hk hk' := (h'.field f k ((h.live f).mpr hf) hk hk').trans (h.field f k hf hk hk')
  num f sl hf hsl := (h'.num f sl ((h.live f).mpr hf) hsl).trans (h.num f sl hf hsl)
  name d sl j hd hdir hsl hne hj := by
    have heq := h.num d sl hd hsl.ok
    have hname := h'.name d sl j ((h.live d).mpr hd) ((h.isDir hd).mpr hdir) hsl (heq ▸ hne) hj
    rw [heq] at hname
    exact hname.trans (h.name d sl j hd hdir hsl hne hj)
  slot d sl j k hd hdir hsl hne hj hk hk' := by
    have heq := h.num d sl hd hsl.ok
    have hslot := h'.slot d sl j k ((h.live d).mpr hd) ((h.isDir hd).mpr hdir) hsl
      (heq ▸ hne) hj hk hk'
    rw [heq] at hslot
    exact hslot.trans (h.slot d sl j k hd hdir hsl hne hj hk hk')
  data f sl hf hreg hsl hne := by
    have heq := h.num f sl hf hsl.ok
    have hdata := h'.data f sl ((h.live f).mpr hf) (fun hd => hreg ((h.isDir hf).mp hd)) hsl
      (heq ▸ hne)
    rw [heq] at hdata
    exact hdata.trans (h.data f sl hf hreg hsl hne)
  free b hb := (h'.free b (h.nblocks ▸ hb)).trans (h.free b hb)
  nblocks := h'.nblocks.trans h.nblocks

lemma View.SameTree.filled (h : SameTree v v') (hd : v.Live ∅ d) : v'.Filled d ↔ v.Filled d := by
  rw [View.Filled, View.Filled, h.field d F_SIZE hd le_rfl (by decide)]
  refine forall₂_congr fun i _ => and_congr_right fun hi => ?_
  rw [h.num d _ hd (Slot.data_of hi).ok]

lemma View.SameTree.holds (h : SameTree v v') (hd : v.Live ∅ d) (hdir : v.IsDir d)
    (hfill : v.Filled d) : v'.Holds d c g ↔ v.Holds d c g := by
  rw [View.Holds, View.Holds, h.field d F_SIZE hd le_rfl (by decide)]
  refine exists_congr fun i => and_congr_right fun hi => exists_congr fun j =>
    and_congr_right fun hj => ?_
  obtain ⟨hlt, hne⟩ := hfill i hi
  have hsl := Slot.data_of hlt
  rw [h.num d _ hd hsl.ok]
  refine and_congr_right fun hg => ?_
  rw [hg, h.name d _ j hd hdir hsl hne hj]

/-- **The same names lead to the same files.** -/
lemma View.SameTree.leads (h : SameTree v v') (ht : v.IsTree) :
    v'.Leads .root cs f ↔ v.Leads .root cs f := by
  induction cs using List.reverseRecOn generalizing f with
  | nil => rw [View.leads_nil, View.leads_nil]
  | append_singleton cs c ih =>
      rw [View.leads_concat, View.leads_concat]
      refine exists_congr fun d => ?_
      rw [ih]
      refine and_congr_right fun hd => ?_
      have hlive : v.Live ∅ d := ht.live hd
      rw [h.isDir hlive]
      refine and_congr_right fun hdir => and_congr_right fun _ => ?_
      exact h.holds hlive hdir (ht.filled cs d hd hdir)

lemma View.SameTree.isTree (h : SameTree v v') (ht : v.IsTree) : v'.IsTree := by
  have hdown : ∀ {cs d}, v'.Leads .root cs d → v'.IsDir d →
      v.Leads .root cs d ∧ v.Live ∅ d ∧ v.IsDir d ∧ v.Filled d := by
    intro cs d hd hdir
    have hd₀ := (h.leads ht).mp hd
    have hlive : v.Live ∅ d := ht.live hd₀
    have hdir₀ := (h.isDir hlive).mp hdir
    exact ⟨hd₀, hlive, hdir₀, ht.filled cs d hd₀ hdir₀⟩
  refine ⟨fun cs d hd hdir => ?_, fun cs d c g hd hdir hg => ?_,
    fun cs d c g g' hd hdir hc hg hg' => ?_⟩
  · obtain ⟨-, hlive, -, hfill⟩ := hdown hd hdir
    exact (h.filled hlive).mpr hfill
  · obtain ⟨hd₀, hlive, hdir₀, hfill⟩ := hdown hd hdir
    exact ht.ends cs d c g hd₀ hdir₀ ((h.holds hlive hdir₀ hfill).mp hg)
  · obtain ⟨hd₀, hlive, hdir₀, hfill⟩ := hdown hd hdir
    exact ht.unique cs d c g g' hd₀ hdir₀ hc ((h.holds hlive hdir₀ hfill).mp hg)
      ((h.holds hlive hdir₀ hfill).mp hg')

/-! ## A pointer to the parent is stored -/

/-- A word is stored that is not in the name of the entry. -/
lemma name_store {b i : ℕ} {w : Word} (h : ¬ (f.block = b ∧ f.word ≤ i ∧ i < f.word + F_SIZE)) :
    (v.store b i w).name f = v.name f := by
  rw [View.name, View.name]
  refine str_congr fun k hk => ?_
  rw [Block.byte, Block.byte, store_apply, if_neg]
  rintro ⟨hb, hi⟩
  simp only [MAXNAMELEN] at hk
  simp only [F_SIZE] at h
  exact h ⟨hb, by omega⟩

/-- **The pointer to the parent is not part of a file.** -/
lemma View.Own.sameTree_parent (h : v.Own ∅) (hg : v.Live ∅ g) (w : Word) :
    SameTree v (v.store g.block (g.word + F_DIR) w) := by
  have hagree := h.agree_field hg (k := F_DIR) (by decide) (by decide) w
  have hplain := h.plain_field hg F_DIR
  refine ⟨fun f => hagree.live, fun f k hf hk hk' => field_store fun hc => ?_,
    fun f sl hf hsl => hagree.num hf hsl, fun d sl j hd hdir hsl hne hj => name_store fun hc => ?_,
    fun d sl j k hd hdir hsl hne hj hk hk' => field_store fun hc => ?_,
    fun f sl hf hreg hsl hne => store_of_ne _ _ _ _ fun heq => ?_,
    fun b hb => free_store hplain hb, nblocks_store_plain hplain⟩
  · have := (h.disjoint hf hg (lt_trans hk' (by decide)) (by decide) hc.1 hc.2).2
    exact absurd this (Nat.ne_of_lt hk')
  · -- an entry starts at a multiple of 64 words, and this word is behind a name
    have hgt := (h.range d sl hd hsl.ok hne).1
    have h2 := @two_le_lastReserved v
    obtain ⟨hb, hlo, hhi⟩ := hc
    simp only [FileRef.entry, F_SIZE, F_DIR] at hb hlo hhi
    obtain rfl | ⟨d', sl', j', -, -, -, -, -, rfl⟩ := hg.cases_on_place
    · simp only [FileRef.root] at hb
      omega
    · simp only [FileRef.entry] at hlo hhi
      omega
  · -- the pointers are the last words of the entries
    have hgt := (h.range d sl hd hsl.ok hne).1
    have h2 := @two_le_lastReserved v
    obtain ⟨hb, hw⟩ := hc
    simp only [FileRef.entry, F_SIZE, F_DIR] at hb hw hk hk'
    obtain rfl | ⟨d', sl', j', -, -, -, -, -, rfl⟩ := hg.cases_on_place
    · simp only [FileRef.root] at hb
      omega
    · simp only [FileRef.entry] at hw
      omega
  · -- no entry is in a block of a regular file
    have hgt := (h.range f sl hf hsl.ok hne).1
    have h2 := @two_le_lastReserved v
    obtain rfl | ⟨d', sl', j', hd', hdir', hsl', hne', -, rfl⟩ := hg.cases_on_place
    · simp only [FileRef.root] at heq
      omega
    · obtain ⟨rfl, -⟩ := h.inj f sl d' sl' hf hd' hsl.ok hsl'.ok hne heq
      exact hreg hdir'

end

/-! ## Checking a tree -/

/-- The list has all directories, and their entries are as in a tree. -/
structure View.TreeChecks (dirs : List FileRef) (v : View) : Prop where
  root : FileRef.root ∈ dirs
  filled : ∀ d ∈ dirs, v.Filled d
  closed : ∀ d ∈ dirs, ∀ i < (v.field d F_SIZE).toNat / BY2BLK, ∀ j < FILE2BLK,
    v.name (.entry (v.num d (.of i)) j) ≠ [] → v.IsDir (.entry (v.num d (.of i)) j) →
      .entry (v.num d (.of i)) j ∈ dirs
  ends : ∀ d ∈ dirs, ∀ i < (v.field d F_SIZE).toNat / BY2BLK, ∀ j < FILE2BLK,
    (v.name (.entry (v.num d (.of i)) j)).length < MAXNAMELEN
  unique : ∀ d ∈ dirs, ∀ i < (v.field d F_SIZE).toNat / BY2BLK, ∀ j < FILE2BLK,
    v.name (.entry (v.num d (.of i)) j) ≠ [] →
      ∀ i' < (v.field d F_SIZE).toNat / BY2BLK, ∀ j' < FILE2BLK,
        v.name (.entry (v.num d (.of i)) j) = v.name (.entry (v.num d (.of i')) j') →
          FileRef.entry (v.num d (.of i)) j = .entry (v.num d (.of i')) j'

instance (v : View) (d : FileRef) : Decidable (v.Filled d) :=
  inferInstanceAs (Decidable (∀ i < _, _ ∧ _))

set_option synthInstance.maxSize 256 in
instance (dirs : List FileRef) (v : View) : Decidable (v.TreeChecks dirs) :=
  decidable_of_iff (_ ∧ _ ∧ _ ∧ _ ∧ _)
    ⟨fun h => ⟨h.1, h.2.1, h.2.2.1, h.2.2.2.1, h.2.2.2.2⟩, fun h => ⟨h.1, h.2, h.3, h.4, h.5⟩⟩

section

variable {dirs : List FileRef} {v : View} {d g : FileRef} {cs : List (List Byte)}

/-- The directories that names lead to are in the list. -/
lemma View.TreeChecks.mem (h : v.TreeChecks dirs) (hd : v.Leads .root cs d) (hdir : v.IsDir d) :
    d ∈ dirs := by
  induction cs using List.reverseRecOn generalizing d with
  | nil =>
      obtain rfl := View.leads_nil.mp hd
      exact h.root
  | append_singleton cs c ih =>
      obtain ⟨d', hd', hdir', hc, i, hi, j, hj, rfl, hname⟩ := View.leads_concat.mp hd
      exact h.closed d' (ih hd' hdir') i hi j hj (hname.trans_ne hc) hdir

/-- The check is sound. -/
lemma View.TreeChecks.isTree (h : v.TreeChecks dirs) : v.IsTree where
  filled _ d hd hdir := h.filled d (h.mem hd hdir)
  ends _ d c g hd hdir := by
    rintro ⟨i, hi, j, hj, rfl, rfl⟩
    exact h.ends d (h.mem hd hdir) i hi j hj
  unique _ d c g g' hd hdir hc := by
    rintro ⟨i, hi, j, hj, rfl, rfl⟩ ⟨i', hi', j', hj', rfl, hname⟩
    exact h.unique d (h.mem hd hdir) i hi j hj hc i' hi' j' hj' hname.symm

end

end MosRv.Fs
