import MosRv.Fs.Resolve
import MosRv.Fs.Truncate

/-!
# Removing a file (`file_remove`)

`Server.Removed` is what removing the file at a path should come to: the path leads nowhere any
more, every path that does not go through the entry leads to the same file with the same contents,
and the blocks of the file and of everything below it are free.  No block is in two slots, so these
are the blocks that were reachable through the entry only.

`file_remove` truncates the file and clears its name, and that does not do it in three cases.  The
root has no name: it is emptied, and still found.  A directory is truncated like a regular file, so
what is below it keeps its blocks, and no path leads to them.  And `file_truncate` does not free the
blocks of the file behind its size.  `View.Removable` excludes these, and `file_remove_iff` says
that there are no others.
-/

namespace MosRv.Fs

open Prog View Reach

/-! ## What removing does to the other files -/

/-- The file has the same size, type and slots, and the same contents if it is a regular one. -/
structure View.SameFile (v v' : View) (g : FileRef) : Prop where
  field : ∀ k, F_SIZE ≤ k → k < F_DIR → v'.field g k = v.field g k
  num : ∀ sl : Slot, sl.Ok → v'.num g sl = v.num g sl
  data : ¬ v.IsDir g → ∀ sl : Slot, sl.Data → v.num g sl ≠ 0 → v' (v.num g sl) = v (v.num g sl)

/-- A slot for data is that of a block of the file. -/
lemma Slot.exists_of {sl : Slot} (h : sl.Data) : ∃ n < NINDIRECT, sl = .of n := by
  cases sl with
  | direct i =>
      have hi : i < NDIRECT := h
      exact ⟨i, lt_trans hi (by decide), (Slot.of_direct hi).symm⟩
  | indirect => exact h.elim
  | index i =>
      have hi : NDIRECT ≤ i ∧ i < NINDIRECT := h
      exact ⟨i, hi.2, (Slot.of_index (not_lt.mpr hi.1)).symm⟩

section

variable {v v' v'' : View} {f g d : FileRef} {sl : Slot} {b j k : ℕ} {c c' : List Byte}
variable {cs cs' : List (List Byte)}

lemma View.SameFile.isDir (h : v.SameFile v' g) : v'.IsDir g ↔ v.IsDir g := by
  rw [View.IsDir, View.IsDir, h.field F_TYPE (by decide) (by decide)]

lemma View.SameFile.trans (h : v.SameFile v' g) (h' : v'.SameFile v'' g) : v.SameFile v'' g where
  field k hk hk' := (h'.field k hk hk').trans (h.field k hk hk')
  num sl hsl := (h'.num sl hsl).trans (h.num sl hsl)
  data hreg sl hsl hne := by
    have hdata := h'.data (fun hd => hreg (h.isDir.mp hd)) sl hsl (h.num sl hsl.ok ▸ hne)
    rw [h.num sl hsl.ok] at hdata
    exact hdata.trans (h.data hreg sl hsl hne)

lemma View.SameTree.sameFile (h : SameTree v v') (hg : v.Live ∅ g) : v.SameFile v' g where
  field k := h.field g k hg
  num sl := h.num g sl hg
  data hreg sl := h.data g sl hg hreg

/-- Back from the later view. -/
lemma View.SameTree.symm (h : SameTree v v') : SameTree v' v where
  live f := (h.live f).symm
  field f k hf hk hk' := (h.field f k ((h.live f).mp hf) hk hk').symm
  num f sl hf hsl := (h.num f sl ((h.live f).mp hf) hsl).symm
  name d sl j hd hdir hsl hne hj := by
    have hd₀ := (h.live d).mp hd
    have heq := h.num d sl hd₀ hsl.ok
    rw [heq] at hne ⊢
    exact (h.name d sl j hd₀ ((h.isDir hd₀).mp hdir) hsl hne hj).symm
  slot d sl j k hd hdir hsl hne hj hk hk' := by
    have hd₀ := (h.live d).mp hd
    have heq := h.num d sl hd₀ hsl.ok
    rw [heq] at hne ⊢
    exact (h.slot d sl j k hd₀ ((h.isDir hd₀).mp hdir) hsl hne hj hk hk').symm
  data f sl hf hreg hsl hne := by
    have hf₀ := (h.live f).mp hf
    have heq := h.num f sl hf₀ hsl.ok
    rw [heq] at hne ⊢
    exact (h.data f sl hf₀ (fun hd => hreg ((h.isDir hf₀).mpr hd)) hsl hne).symm
  free b hb := (h.free b (h.nblocks ▸ hb)).symm
  nblocks := h.nblocks.symm

/-- An entry that has a word in common with a file is the file. -/
lemma View.Own.eq_of_contains (h : v.Own ∅) (hf : v.Live ∅ f) (hd : v.Live ∅ d) (hsl : sl.Data)
    (hne : v.num d sl ≠ 0) (hk : k < 64)
    (hc : f.Contains (FileRef.entry (v.num d sl) j).block
      ((FileRef.entry (v.num d sl) j).word + k)) :
    FileRef.entry (v.num d sl) j = f := by
  have hgt := (h.range d sl hd hsl.ok hne).1
  have h2 := @two_le_lastReserved v
  obtain ⟨hblock, hlo, hhi⟩ := hc
  obtain rfl | ⟨d', sl', j', -, -, -, -, -, rfl⟩ := hf.cases_on_place
  · simp only [FileRef.root, FileRef.entry] at hblock
    omega
  · simp only [FileRef.entry] at hblock hlo hhi ⊢
    have hj : j = j' := by omega
    rw [hblock, hj]

/-- A file that has a word in common with another is that file. -/
lemma View.Own.eq_of_contains_live (h : v.Own ∅) (hf : v.Live ∅ f) (hg : v.Live ∅ g) (hk : k < 64)
    (hc : f.Contains g.block (g.word + k)) : g = f := by
  obtain rfl | ⟨d, sl, j, hd, -, hsl, hne, -, rfl⟩ := hg.cases_on_place
  · obtain rfl | ⟨d', sl', j', hd', -, hsl', hne', -, rfl⟩ := hf.cases_on_place
    · rfl
    · have hgt := (h.range d' sl' hd' hsl'.ok hne').1
      have h2 := @two_le_lastReserved v
      have h1 : 1 = v.num d' sl' := hc.1
      omega
  · exact h.eq_of_contains hf hd hsl hne hk hc

/-- Removing a file touches its `struct File`, its indirect block and the bitmap. -/
lemma View.Own.remove_word (h : v.Own ∅) (hf : v.Live ∅ f) (hb : b = 1 ∨ v.lastReserved < b)
    (hout : ¬ f.Contains b k) (hind : b ≠ v.num f .indirect) : v.remove f b k = v b k := by
  rw [View.remove, View.clearName, store_apply, if_neg,
    h.truncate_word hf 0#32 hb hout fun hc => absurd hc hind]
  rintro ⟨rfl, rfl⟩
  exact hout ⟨rfl, le_rfl, Nat.lt_add_of_pos_right (by decide)⟩

lemma View.Own.block_ne_num_indirect (h : v.Own ∅) (hf : v.Live ∅ f) (hg : v.Live ∅ g) :
    g.block ≠ v.num f .indirect := by
  by_cases h0 : v.num f .indirect = 0
  · have h2 := @two_le_lastReserved v
    rcases h.block_of_live hg with h1 | h1 <;> omega
  · exact h.block_ne_indirect hg hf h0

lemma View.Own.field_remove (h : v.Own ∅) (hf : v.Live ∅ f) (hg : v.Live ∅ g) (hne : g ≠ f)
    (hk : k < 64) : (v.remove f).field g k = v.field g k :=
  h.remove_word hf (h.block_of_live hg) (fun hc => hne (h.eq_of_contains_live hf hg hk hc))
    (h.block_ne_num_indirect hf hg)

lemma View.Own.num_ne_indirect (h : v.Own ∅) (hf : v.Live ∅ f) (hg : v.Live ∅ g) (hsl : sl.Ok)
    (hnum : v.num g sl ≠ 0) (hne : ¬ (g = f ∧ sl = .indirect)) :
    v.num g sl ≠ v.num f .indirect :=
  fun heq => hne (h.inj g sl f .indirect hg hf hsl Slot.ok_indirect hnum heq)

/-- The other files keep their slots. -/
lemma View.Own.num_remove (h : v.Own ∅) (hf : v.Live ∅ f) (hg : v.Live ∅ g) (hne : g ≠ f)
    (hsl : sl.Ok) : (v.remove f).num g sl = v.num g sl := by
  have hind := h.field_remove hf hg hne (k := F_INDIRECT) (by decide)
  cases sl with
  | direct i =>
      have hi : i < 10 := hsl.resolve_left nofun
      rw [View.num, View.num, h.field_remove hf hg hne (by simp only [F_DIRECT]; omega)]
  | indirect => rw [View.num, View.num, hind]
  | index i =>
      rw [View.num, View.num, hind]
      by_cases h0 : v.field g F_INDIRECT = 0#32
      · rw [if_pos h0, if_pos h0]
      · rw [if_neg h0, if_neg h0]
        have hnum : v.num g .indirect ≠ 0 := fun hz => h0 (BitVec.eq_of_toNat_eq hz)
        refine congrArg BitVec.toNat (h.remove_word hf ?_ ?_ ?_)
        · exact .inr (h.range g .indirect hg Slot.ok_indirect hnum).1
        · exact fun hc => h.block_ne_num_indirect hg hf hc.1.symm
        · exact h.num_ne_indirect hf hg Slot.ok_indirect hnum fun hc => hne hc.1

/-- **The other files stay as they are.** -/
lemma View.Own.sameFile_remove (h : v.Own ∅) (hf : v.Live ∅ f) (hg : v.Live ∅ g) (hne : g ≠ f) :
    v.SameFile (v.remove f) g where
  field k _ hk := h.field_remove hf hg hne (lt_trans hk (by decide))
  num sl hsl := h.num_remove hf hg hne hsl
  data hreg sl hsl hnum := by
    have hgt := (h.range g sl hg hsl.ok hnum).1
    have h2 := @two_le_lastReserved v
    refine funext fun k => h.remove_word hf (.inr hgt) ?_ ?_
    · -- the file sits in a block of a directory
      rintro ⟨hblock, -, -⟩
      obtain rfl | ⟨d, sl', j, hd, hdir, hsl', hnum', -, rfl⟩ := hf.cases_on_place
      · have h1 : v.num g sl = 1 := hblock
        omega
      · obtain ⟨rfl, -⟩ := h.inj g sl d sl' hg hd hsl.ok hsl'.ok hnum hblock
        exact hreg hdir
    · exact h.num_ne_indirect hf hg hsl.ok hnum fun hc => hsl.ne_indirect hc.2

lemma View.Own.name_remove (h : v.Own ∅) (hf : v.Live ∅ f) (hd : v.Live ∅ d) (hsl : sl.Data)
    (hnum : v.num d sl ≠ 0) (hne : FileRef.entry (v.num d sl) j ≠ f) :
    (v.remove f).name (.entry (v.num d sl) j) = v.name (.entry (v.num d sl) j) := by
  rw [View.name, View.name]
  refine str_congr fun i hi => ?_
  have hword : (4 * (FileRef.entry (v.num d sl) j).word + i) / 4 =
      (FileRef.entry (v.num d sl) j).word + i / 4 := by omega
  rw [Block.byte, Block.byte, hword, h.remove_word hf]
  · exact .inr (h.range d sl hd hsl.ok hnum).1
  · simp only [MAXNAMELEN] at hi
    have hi : i / 4 < 64 := by omega
    exact fun hc => hne (h.eq_of_contains hf hd hsl hnum hi hc)
  · exact h.num_ne_indirect hf hd hsl.ok hnum fun hc => hsl.ne_indirect hc.2

/-- The name is gone. -/
lemma View.name_remove_self (v : View) (f : FileRef) : (v.remove f).name f = [] := by
  have hdiv : 4 * f.word / 4 = f.word := by omega
  have hmod : 4 * f.word % 4 = 0 := by omega
  rw [name_eq_nil, View.Named, not_not, Block.byte, hdiv, hmod, View.remove, View.clearName,
    store_apply, if_pos ⟨rfl, rfl⟩, byte_setByte_zero]

/-- What is free afterwards: what was free, and the blocks of the file up to its size. -/
lemma View.Own.free_remove (h : v.Own ∅) (hf : v.Live ∅ f) (hb : b < v.nblocks) :
    (v.remove f).Free b ↔ v.Free b ∨
      (∃ n < NINDIRECT, n < (v.field f F_SIZE).toNat / BY2BLK + 1 ∧ v.num f (.of n) = b ∧ b ≠ 0) ∨
      v.num f .indirect = b ∧ b ≠ 0 := by
  obtain ⟨he, hl⟩ := h.edits_truncate hf 0#32
  have hplain : (v.truncate f 0#32).Plain f.block f.word := (he.own h).plain_field hl 0
  rw [View.remove, View.clearName, free_store hplain (by rwa [he.nblocks h]),
    h.free_truncate hf 0#32 hb, newNblocks_zero]
  simp only [Nat.zero_le, true_and]

/-! ## What removing does to the tree -/

/-- An entry is in one directory, under one name. -/
lemma View.Own.holds_inj (h : v.Own ∅) (hd : v.Live ∅ d) (hg : v.Live ∅ g) (hfill : v.Filled d)
    (hfill' : v.Filled g) (hf : v.Holds d c f) (hf' : v.Holds g c' f) : d = g ∧ c = c' := by
  obtain ⟨i, hi, j, -, rfl, hname⟩ := hf
  obtain ⟨i', hi', j', -, heq, hname'⟩ := hf'
  obtain ⟨hlt, hne⟩ := hfill i hi
  obtain ⟨hlt', -⟩ := hfill' i' hi'
  have hblock : v.num d (.of i) = v.num g (.of i') := congrArg FileRef.block heq
  exact ⟨(h.inj d _ g _ hd hg (Slot.data_of hlt).ok (Slot.data_of hlt').ok hne hblock).1,
    hname.symm.trans hname'⟩

lemma View.Own.ne_root_of_holds (h : v.Own ∅) (hd : v.Live ∅ d) (hfill : v.Filled d)
    (hf : v.Holds d c f) : f ≠ .root := by
  obtain ⟨i, hi, j, -, rfl, -⟩ := hf
  obtain ⟨hlt, hne⟩ := hfill i hi
  have hgt := (h.range d _ hd (Slot.data_of hlt).ok hne).1
  have h2 := @two_le_lastReserved v
  intro heq
  have h1 : v.num d (.of i) = 1 := congrArg FileRef.block heq
  omega

/-- **Only one list of names leads to a file.** -/
lemma View.Own.leads_inj (h : v.Own ∅) (ht : v.IsTree) (hf : v.Leads .root cs f)
    (hf' : v.Leads .root cs' f) : cs = cs' := by
  induction cs using List.reverseRecOn generalizing f cs' with
  | nil =>
      obtain rfl := View.leads_nil.mp hf
      obtain rfl | ⟨cs', c', rfl⟩ := List.eq_nil_or_concat' cs'
      · rfl
      · obtain ⟨d, hd, hdir, -, hg⟩ := View.leads_concat.mp hf'
        exact absurd rfl (h.ne_root_of_holds (ht.live hd) (ht.filled _ d hd hdir) hg)
  | append_singleton cs c ih =>
      obtain ⟨d, hd, hdir, -, hg⟩ := View.leads_concat.mp hf
      have hfill := ht.filled cs d hd hdir
      obtain rfl | ⟨cs', c', rfl⟩ := List.eq_nil_or_concat' cs'
      · obtain rfl := View.leads_nil.mp hf'
        exact absurd rfl (h.ne_root_of_holds (ht.live hd) hfill hg)
      · obtain ⟨d', hd', hdir', -, hg'⟩ := View.leads_concat.mp hf'
        obtain ⟨rfl, rfl⟩ := h.holds_inj (ht.live hd) (ht.live hd') hfill
          (ht.filled cs' d' hd' hdir') hg hg'
        rw [ih hd hd']

section

variable (h : v.Own ∅) (ht : v.IsTree) (hf : v.Leads .root cs f) (hroot : cs ≠ [])
include h ht hf

/-- A path that does not go through the entry does not come to the file. -/
lemma View.IsTree.ne_of_not_prefix (hnot : ¬ cs <+: cs') (hg : v.Leads .root cs' g) : g ≠ f := by
  rintro rfl
  rw [h.leads_inj ht hg hf] at hnot
  exact hnot List.prefix_rfl

/-- **The other paths lead where they led.** -/
lemma View.IsTree.leads_remove (hnot : ¬ cs <+: cs') :
    (v.remove f).Leads .root cs' g ↔ v.Leads .root cs' g := by
  have hfl : v.Live ∅ f := ht.live hf
  induction cs' using List.reverseRecOn generalizing g with
  | nil => rw [View.leads_nil, View.leads_nil]
  | append_singleton cs' c ih =>
      have hnot' : ¬ cs <+: cs' := fun hp => hnot (hp.trans (List.prefix_append _ _))
      rw [View.leads_concat, View.leads_concat]
      refine exists_congr fun d => ?_
      refine and_congr (ih hnot') Iff.rfl |>.trans ?_
      refine and_congr_right fun hd => ?_
      have hdl : v.Live ∅ d := ht.live hd
      have hsame := h.sameFile_remove hfl hdl (ht.ne_of_not_prefix h hf hnot' hd)
      rw [hsame.isDir]
      refine and_congr_right fun hdir => and_congr_right fun hc => ?_
      have hfill := ht.filled cs' d hd hdir
      rw [View.Holds, View.Holds, hsame.field F_SIZE le_rfl (by decide)]
      refine exists_congr fun i => and_congr_right fun hi => exists_congr fun j =>
        and_congr_right fun hj => ?_
      obtain ⟨hlt, hne⟩ := hfill i hi
      have hsl := Slot.data_of hlt
      rw [hsame.num _ hsl.ok]
      refine and_congr_right fun hg => ?_
      subst hg
      by_cases heq : FileRef.entry (v.num d (.of i)) j = f
      · -- the entry itself has lost its name, and had another one
        refine ⟨fun hname => ?_, fun hname => ?_⟩
        · rw [heq, View.name_remove_self] at hname
          exact absurd hname.symm hc
        · refine absurd heq (ht.ne_of_not_prefix h hf hnot ?_)
          exact View.leads_concat.mpr ⟨d, hd, hdir, hc, i, hi, j, hj, rfl, hname⟩
      · rw [h.name_remove hfl hdl hsl hne heq]

include hroot in
/-- **The paths through the entry lead nowhere.** -/
lemma View.IsTree.not_leads_remove (hp : cs <+: cs') : ¬ (v.remove f).Leads .root cs' g := by
  obtain ⟨rest, rfl⟩ := hp
  rw [View.leads_append]
  rintro ⟨f', hf', -⟩
  obtain rfl | ⟨pre, c, rfl⟩ := List.eq_nil_or_concat' cs
  · exact hroot rfl
  obtain ⟨d, hd, hdir, hc, hf⟩ := View.leads_concat.mp hf
  obtain ⟨d', hd', hdir', -, hf'⟩ := View.leads_concat.mp hf'
  have hshort : ¬ pre ++ [c] <+: pre := fun hp => absurd hp.length_le (by simp)
  have hlead := View.leads_concat.mpr ⟨d, hd, hdir, hc, hf⟩
  rw [ht.leads_remove h hlead hshort] at hd'
  obtain rfl := ht.leads_unique hd hd'
  have hfl : v.Live ∅ f := ht.live hlead
  have hdl : v.Live ∅ d := ht.live hd
  have hsame := h.sameFile_remove hfl hdl (ht.ne_of_not_prefix h hlead hshort hd)
  obtain ⟨i, hi, j, hj, rfl, hname⟩ := hf'
  rw [hsame.field F_SIZE le_rfl (by decide)] at hi
  obtain ⟨hlt, hne⟩ := ht.filled pre d hd hdir i hi
  have hsl := Slot.data_of hlt
  rw [hsame.num _ hsl.ok] at hname
  by_cases heq : FileRef.entry (v.num d (.of i)) j = f
  · rw [heq, View.name_remove_self] at hname
    exact hc hname.symm
  · rw [h.name_remove hfl hdl hsl hne heq] at hname
    exact heq (ht.unique pre d c _ f hd hdir hc ⟨i, hi, j, hj, rfl, hname⟩ hf)

include hroot in
/-- What is left is a tree. -/
lemma View.IsTree.remove : (v.remove f).IsTree := by
  have hfl : v.Live ∅ f := ht.live hf
  have hback : ∀ {cs' g}, (v.remove f).Leads .root cs' g → ¬ cs <+: cs' ∧ v.Leads .root cs' g := by
    intro cs' g hg
    have hnot : ¬ cs <+: cs' := fun hp => ht.not_leads_remove h hf hroot hp hg
    exact ⟨hnot, (ht.leads_remove h hf hnot).mp hg⟩
  have hdown : ∀ {cs' d}, (v.remove f).Leads .root cs' d → (v.remove f).IsDir d →
      v.Leads .root cs' d ∧ v.IsDir d ∧ v.SameFile (v.remove f) d ∧ v.Filled d := by
    intro cs' d hd hdir
    obtain ⟨hnot, hd₀⟩ := hback hd
    have hsame := h.sameFile_remove hfl (ht.live hd₀) (ht.ne_of_not_prefix h hf hnot hd₀)
    have hdir₀ := hsame.isDir.mp hdir
    exact ⟨hd₀, hdir₀, hsame, ht.filled cs' d hd₀ hdir₀⟩
  -- an entry with a name had it before
  have hholds : ∀ {cs' d c g}, (v.remove f).Leads .root cs' d → (v.remove f).IsDir d → c ≠ [] →
      (v.remove f).Holds d c g → v.Holds d c g := by
    intro cs' d c g hd hdir hc hg
    have hg' := View.leads_concat.mpr ⟨d, hd, hdir, hc, hg⟩
    obtain ⟨d', hd', -, -, hg₀⟩ := View.leads_concat.mp (hback hg').2
    obtain rfl := ht.leads_unique hd' (hdown hd hdir).1
    exact hg₀
  refine ⟨fun cs' d hd hdir i hi => ?_, fun cs' d c g hd hdir hg => ?_,
    fun cs' d c g g' hd hdir hc hg hg' => ?_⟩
  · obtain ⟨-, -, hsame, hfill⟩ := hdown hd hdir
    rw [hsame.field F_SIZE le_rfl (by decide)] at hi
    obtain ⟨hlt, hne⟩ := hfill i hi
    exact ⟨hlt, by rwa [hsame.num _ (Slot.data_of hlt).ok]⟩
  · obtain ⟨hd₀, hdir₀, -, -⟩ := hdown hd hdir
    by_cases hc : c = []
    · rw [hc]
      decide
    · exact ht.ends cs' d c g hd₀ hdir₀ (hholds hd hdir hc hg)
  · obtain ⟨hd₀, hdir₀, -, -⟩ := hdown hd hdir
    exact ht.unique cs' d c g g' hd₀ hdir₀ hc (hholds hd hdir hc hg) (hholds hd hdir hc hg')

end

end

/-! ## What `file_remove` does -/

/-- **What removing the file at a path is to do**; `v` is the view before, and `s'` the server
afterwards. -/
structure Server.Removed (v : View) (path : List Byte) (s' : Server) : Prop where
  gone : ∀ w s'', walkPath path s' = .ok w s'' → w.err = some .notFound
  others : ∀ cs g, ¬ pieces path <+: cs → (s'.view.Leads .root cs g ↔ v.Leads .root cs g) ∧
    (v.Leads .root cs g → v.SameFile s'.view g)
  reclaimed : ∀ rest g sl, v.Leads .root (pieces path ++ rest) g → sl.Ok → v.num g sl ≠ 0 →
    s'.view.Free (v.num g sl)

/-- The file is not the root, it has no blocks behind its size, and nothing below it has blocks. -/
structure View.Removable (v : View) (cs : List (List Byte)) : Prop where
  notRoot : cs ≠ []
  trimmed : ∀ f, v.Leads .root cs f → v.Trimmed f
  below : ∀ rest g sl, rest ≠ [] → v.Leads .root (cs ++ rest) g → sl.Ok → v.num g sl = 0

section

variable {O : Set FileRef} {s s' : Server} {v v' : View} {f : FileRef} {path : List Byte}
variable {cs : List (List Byte)}

lemma skipSlash_eq_nil (h : pieces path = []) : skipSlash path = [] := by
  by_contra hne
  have hfirst := takeWhile_ne_nil hne fun c rest => skipSlash_head
  rw [← pieces_skipSlash, pieces_eq hfirst] at h
  exact List.cons_ne_nil _ _ h

/-- Without pieces the walk stays at the root. -/
lemma walkPath_root (h : pieces path = []) :
    walkPath path s = .ok ⟨none, none, some .root, none⟩ s := by
  rw [walkPath, skipSlash_eq_nil h]
  rfl

/-- The blocks of the file and of what is below it are free, exactly if there are none that
truncating the file does not come to. -/
lemma View.IsTree.reclaimed_iff (h : v.Own ∅) (ht : v.IsTree) (hf : v.Leads .root cs f) :
    (∀ rest g sl, v.Leads .root (cs ++ rest) g → sl.Ok → v.num g sl ≠ 0 →
      (v.remove f).Free (v.num g sl)) ↔
    v.Trimmed f ∧ ∀ rest g sl, rest ≠ [] → v.Leads .root (cs ++ rest) g → sl.Ok →
    v.num g sl = 0 := by
  have hfl : v.Live ∅ f := ht.live hf
  -- the blocks that become free are in the slots of the file up to its size
  have hwhich : ∀ g sl, v.Live ∅ g → sl.Ok → v.num g sl ≠ 0 →
      ((v.remove f).Free (v.num g sl) ↔ g = f ∧ (sl = .indirect ∨
        ∃ n < NINDIRECT, n < (v.field f F_SIZE).toNat / BY2BLK + 1 ∧ sl = .of n)) := by
    intro g sl hg hsl hne
    obtain ⟨-, hlt, hused⟩ := h.range g sl hg hsl hne
    rw [h.free_remove hfl hlt, or_iff_right hused]
    constructor
    · rintro (⟨n, hn, hsize, heq, -⟩ | ⟨heq, -⟩)
      · obtain ⟨rfl, rfl⟩ := h.inj g sl f _ hg hfl hsl (Slot.data_of hn).ok hne heq.symm
        exact ⟨rfl, .inr ⟨n, hn, hsize, rfl⟩⟩
      · obtain ⟨rfl, rfl⟩ := h.inj g sl f _ hg hfl hsl Slot.ok_indirect hne heq.symm
        exact ⟨rfl, .inl rfl⟩
    · rintro ⟨rfl, rfl | ⟨n, hn, hsize, rfl⟩⟩
      · exact .inr ⟨rfl, hne⟩
      · exact .inl ⟨n, hn, hsize, rfl, hne⟩
  constructor
  · refine fun hall => ⟨fun n hn hsize => ?_, fun rest g sl hrest hg hsl => ?_⟩
    · by_contra hne
      have hsl := Slot.data_of hn
      have hfree := hall [] f (.of n) (by rwa [List.append_nil]) hsl.ok hne
      obtain ⟨-, hind | ⟨m, -, hm, heq⟩⟩ := (hwhich f _ hfl hsl.ok hne).mp hfree
      · exact hsl.ne_indirect hind
      · have := Slot.of_inj heq
        omega
    · by_contra hne
      obtain ⟨rfl, -⟩ := (hwhich g sl (ht.live hg) hsl hne).mp (hall rest g sl hg hsl hne)
      exact hrest (List.append_right_eq_self.mp (h.leads_inj ht hg hf))
  · rintro ⟨htrim, hbelow⟩ rest g sl hg hsl hne
    obtain rfl | hrest := eq_or_ne rest []
    · rw [List.append_nil] at hg
      obtain rfl := ht.leads_unique hg hf
      refine (hwhich g sl hfl hsl hne).mpr ⟨rfl, ?_⟩
      rcases hsl with rfl | hsl
      · exact .inl rfl
      · obtain ⟨n, hn, rfl⟩ := Slot.exists_of hsl
        refine .inr ⟨n, hn, ?_, rfl⟩
        by_contra hge
        exact hne (htrim n hn (not_lt.mp hge))
    · exact absurd (hbelow rest g sl hrest hg hsl) hne

/-- **What removing a file comes to**, after it has been found. -/
lemma Server.Sound.removed_iff (h : s.Sound O) (ht : s.view.IsTree) (hstr : IsString path)
    (hf : s.view.Leads .root (pieces path) f) (hO : f = .root ∨ f ∈ O)
    (hbec : s.Becomes (s.view.remove f) s') :
    Removed s.view path s' ↔ s.view.Removable (pieces path) := by
  have hown := h.own.named
  have hfl : s.view.Live ∅ f := ht.live hf
  have hview := hbec.view
  have hrec := ht.reclaimed_iff hown hf
  have hs' : s'.Sound O :=
    h.runs (hbec.runs (h.own.edits_remove (hfl.mono (Set.empty_subset O)) hO).1)
  constructor
  · rintro ⟨hgone, -, hfree⟩
    rw [hview] at hfree
    obtain ⟨htrim, hbelow⟩ := hrec.mp hfree
    refine ⟨fun hnil => ?_, fun g hg => ht.leads_unique hg hf ▸ htrim, hbelow⟩
    exact absurd (hgone _ _ (walkPath_root hnil)) nofun
  · rintro ⟨hroot, htrim, hbelow⟩
    refine ⟨fun w s'' hwalk => ?_, fun cs g hnot => ?_, ?_⟩
    · -- the directory is still there, and does not hold the last piece any more
      have ht' : s'.view.IsTree := hview ▸ ht.remove hown hf hroot
      obtain ⟨hres, -⟩ := (hs'.wp_walkPath_tree (E := fun _ _ => True) ht' hstr).of_ok hwalk
      obtain hnil | ⟨pre, c, hcs⟩ := List.eq_nil_or_concat' (pieces path)
      · exact absurd hnil hroot
      have hf' := hf
      rw [hcs] at hf'
      obtain ⟨d, hd, hdir, -, hg⟩ := View.leads_concat.mp hf'
      have hshort : ¬ pieces path <+: pre := by
        rw [hcs]
        exact fun hp => absurd hp.length_le (by simp)
      refine hres.notFound.mpr ⟨pre, c, [], ⟨hcs, ⟨d, ?_⟩, fun g hg => ?_⟩,
        ht.ends pre d c f hd hdir hg⟩
      · rw [hview]
        exact (ht.leads_remove hown hf hshort).mpr hd
      · rw [hview, ← hcs] at hg
        exact ht.not_leads_remove hown hf hroot List.prefix_rfl hg
    · rw [hview]
      refine ⟨ht.leads_remove hown hf hnot, fun hg => ?_⟩
      exact hown.sameFile_remove hfl (ht.live hg) (ht.ne_of_not_prefix hown hf hnot hg)
    · rw [hview]
      exact hrec.mpr ⟨htrim f hf, hbelow⟩

/-- What was there before the walk and what was there after it. -/
lemma View.SameTree.removed (h : SameTree v v') (ht : v.IsTree) :
    Server.Removed v' path s' ↔ Server.Removed v path s' := by
  have hleads : ∀ {cs g}, v'.Leads .root cs g ↔ v.Leads .root cs g := h.leads ht
  constructor
  · rintro ⟨hgone, hothers, hfree⟩
    refine ⟨hgone, fun cs g hnot => ?_, fun rest g sl hg hsl hne => ?_⟩
    · obtain ⟨hiff, hsame⟩ := hothers cs g hnot
      exact ⟨hiff.trans hleads, fun hg => (h.sameFile (ht.live hg)).trans (hsame (hleads.mpr hg))⟩
    · have heq := h.num g sl (ht.live hg) hsl
      rw [← heq] at hne ⊢
      exact hfree rest g sl (hleads.mpr hg) hsl hne
  · rintro ⟨hgone, hothers, hfree⟩
    refine ⟨hgone, fun cs g hnot => ?_, fun rest g sl hg hsl hne => ?_⟩
    · obtain ⟨hiff, hsame⟩ := hothers cs g hnot
      refine ⟨hiff.trans hleads.symm, fun hg => ?_⟩
      have hg := hleads.mp hg
      exact (h.symm.sameFile ((h.live g).mpr (ht.live hg))).trans (hsame hg)
    · have hg := hleads.mp hg
      have heq := h.num g sl (ht.live hg) hsl
      rw [heq] at hne ⊢
      exact hfree rest g sl hg hsl hne

lemma View.SameTree.removable (h : SameTree v v') (ht : v.IsTree) :
    v'.Removable cs ↔ v.Removable cs := by
  have hleads : ∀ {cs g}, v'.Leads .root cs g ↔ v.Leads .root cs g := h.leads ht
  have htrim : ∀ g, v.Live ∅ g → (v'.Trimmed g ↔ v.Trimmed g) := by
    intro g hg
    rw [View.Trimmed, View.Trimmed, h.field g F_SIZE hg le_rfl (by decide)]
    refine forall₂_congr fun n hn => ?_
    rw [h.num g _ hg (Slot.data_of hn).ok]
  constructor
  · rintro ⟨hroot, ht', hbelow⟩
    refine ⟨hroot, fun g hg => (htrim g (ht.live hg)).mp (ht' g (hleads.mpr hg)),
      fun rest g sl hrest hg hsl => ?_⟩
    rw [← h.num g sl (ht.live hg) hsl]
    exact hbelow rest g sl hrest (hleads.mpr hg) hsl
  · rintro ⟨hroot, ht', hbelow⟩
    refine ⟨hroot, fun g hg => ?_, fun rest g sl hrest hg hsl => ?_⟩
    · have hg := hleads.mp hg
      exact (htrim g (ht.live hg)).mpr (ht' g hg)
    · have hg := hleads.mp hg
      rw [h.num g sl (ht.live hg) hsl]
      exact hbelow rest g sl hrest hg hsl

/-- **What `file_open` does on a tree.** -/
lemma Server.Sound.wp_fileOpen_tree (h : s.Sound O) (ht : s.view.IsTree) (hstr : IsString path) :
    wp (fileOpen path) s
      (fun f s' => s.view.Leads .root (pieces path) f ∧ SameTree s.view s'.view ∧
        ∃ O', s'.Sound O' ∧ (f = .root ∨ f ∈ O'))
      (fun _ s' => (∀ f, ¬ s.view.Leads .root (pieces path) f) ∧ SameTree s.view s'.view)
      Panic.Memory := by
  rw [fileOpen, wp_bind]
  refine (h.wp_walkPath_tree ht hstr).mono ?_ (fun _ _ he => he) fun _ hp => hp
  rintro ⟨err, dir, file, elem⟩ s₁ ⟨hres, hsame, O', h₁, hopen, -⟩
  cases err with
  | some e => exact ⟨fun f hf => absurd (hres.found.mpr ⟨f, hf⟩) (by simp), hsame⟩
  | none =>
      obtain ⟨f, hf⟩ := hres.found.mp rfl
      obtain rfl : file = some f := (hres.file f).mpr hf
      exact ⟨hf, hsame, O', h₁, hopen f rfl⟩

/-- `file_remove` removes the file that the path leads to, in a tree that is the same as before. -/
lemma Server.Sound.wp_fileRemove_found (h : s.Sound O) (ht : s.view.IsTree)
    (hstr : IsString path) : wp (fileRemove path) s
      (fun _ s' => ∃ (f : FileRef) (s₁ : Server) (O' : Set FileRef), SameTree s.view s₁.view ∧
        s₁.Sound O' ∧ (f = .root ∨ f ∈ O') ∧ s₁.view.Leads .root (pieces path) f ∧
        s₁.Becomes (s₁.view.remove f) s')
      (fun _ s' => SameTree s.view s'.view) Panic.Memory := by
  rw [fileRemove, wp_bind]
  refine (h.wp_fileOpen_tree ht hstr).mono ?_ (fun _ _ he => he.2) fun _ hp => hp
  rintro f s₁ ⟨hf, hsame, O', h₁, hO⟩
  have hf₁ : s₁.view.Leads .root (pieces path) f := (hsame.leads ht).mpr hf
  have ht₁ := hsame.isTree ht
  refine (h₁.wp_removeFound hO (ht₁.live hf₁)).mono ?_ (fun _ _ he => he) fun _ hp => hp
  exact fun _ s' hbec => ⟨f, s₁, O', hsame, h₁, hO, hf₁, hbec⟩

/-- **`file_remove` removes the file and reclaims its space if and only if** it is not the root, has
no blocks behind its size, and nothing below it has blocks.  If it fails, the files and the bitmap
are as they were. -/
theorem file_remove_iff (h : s.Sound O) (ht : s.view.IsTree) (hstr : IsString path) :
    wp (fileRemove path) s
      (fun _ s' => Server.Removed s.view path s' ↔ s.view.Removable (pieces path))
      (fun _ s' => SameTree s.view s'.view) s.OutOfMemory := by
  refine (answered_fileRemove path).outOfMemory ?_
  refine (h.wp_fileRemove_found ht hstr).mono ?_ (fun _ _ he => he) fun _ hp => hp
  rintro _ s' ⟨f, s₁, O', hsame, h₁, hO, hf₁, hbec⟩
  rw [← hsame.removed ht, ← hsame.removable ht]
  exact h₁.removed_iff (hsame.isTree ht) hstr hf₁ hO hbec

end

/-! ## A directory with a file in it -/

/-- A disk with a directory "d", which has a file "a" with the block 5. -/
def dirDisk : View
  | 1 => .ofWords [(0, FS_MAGIC), (1, 7#32), (34, 4096#32), (35, FTYPE_DIR), (36, 3#32)]
  | 2 => .ofWords [(0, 0b1000000#32)]
  | 3 => .ofWords [(0, 0x64#32), (32, 4096#32), (33, FTYPE_DIR), (34, 4#32)]
  | 4 => .ofWords [(0, 0x61#32), (32, 1#32), (34, 5#32)]
  | _ => Block.zero

lemma wellFormed_dirDisk : WellFormed dirDisk :=
  wellFormed_of_checks [.root, .entry 3 0, .entry 4 0] (by decide) (by decide)
    (by decide) (by decide) (by decide) (by decide)

lemma treeChecks_dirDisk : dirDisk.backup.TreeChecks [.root, .entry 3 0] := by
  decide

/-- "/d". -/
def dirPath : List Byte := [slash, 0x64#8]

/-- The path leads to the directory, and from there "a" to the file. -/
lemma leads_dirDisk : dirDisk.backup.Leads .root (pieces dirPath ++ [[0x61#8]]) (.entry 4 0) := by
  have hpieces : pieces dirPath ++ [[0x61#8]] = [[0x64#8], [0x61#8]] := by decide
  rw [hpieces]
  refine .cons (g := .entry 3 0) (by decide) (by decide) ?_ ?_
  · exact ⟨0, by decide, 0, by decide, by decide, by decide⟩
  · refine .cons (by decide) (by decide) ?_ (.nil _)
    exact ⟨0, by decide, 0, by decide, by decide, by decide⟩

/-- **The block of the file is not free** after the directory has been removed. -/
theorem file_remove_leaks : ∃ (s s' : Server), s.Sound ∅ ∧ s.view.IsTree ∧ IsString dirPath ∧
    fileRemove dirPath s = .ok () s' ∧ ¬ Server.Removed s.view dirPath s' := by
  have hrun : (World.boot dirDisk).any (fun w =>
      (fileRemove dirPath w.server).returned fun _ s' => !decide (s'.view.Free 5)) = true := by
    decide +kernel
  obtain ⟨w, hw, htest⟩ := (Option.any_eq_true _ _).mp hrun
  obtain ⟨mem, s, hinit, rfl⟩ := World.starts_boot hw
  obtain ⟨hs, hview, -⟩ := (wp_fsInit (E := fun _ _ => False) wellFormed_dirDisk mem).of_ok hinit
  have ht : s.view.IsTree := hview ▸ treeChecks_dirDisk.isTree
  obtain ⟨_, s', hremove, hused⟩ := Outcome.returned_iff.mp htest
  refine ⟨s, s', wellFormed_dirDisk.sound hs hview, ht, by rw [IsString]; decide, hremove, ?_⟩
  rintro ⟨-, -, hfree⟩
  rw [hview] at hfree
  have h5 := hfree _ _ (.direct 0) leads_dirDisk (.inr (show 0 < NDIRECT by decide)) (by decide)
  have h5' : s'.view.Free 5 := h5
  rw [decide_eq_true h5'] at hused
  exact Bool.false_ne_true hused

/-- The file "a" on a disk with nothing else. -/
theorem file_remove_iff_oneFile : ∃ s : Server, s.view = oneFileDisk.backup ∧
    wp (fileRemove [0x61#8]) s
      (fun _ s' => Server.Removed s.view [0x61#8] s' ↔ s.view.Removable (pieces [0x61#8]))
      (fun _ s' => SameTree s.view s'.view) s.OutOfMemory := by
  obtain ⟨s, hs, hview, -⟩ := wellFormed_oneFileDisk.exists_sound
  have ht : s.view.IsTree := hview ▸ treeChecks_oneFileDisk.isTree
  exact ⟨s, hview, file_remove_iff hs ht (by rw [IsString]; decide)⟩

end MosRv.Fs
