import MosRv.Fs.Remove

/-!
# What a new file does to a directory

A file comes to be when a name is stored into an entry without one (`View.putName`).  If the entry
is blank (`View.Blank`), it comes to be live, and nothing else does, and the ownership invariant is
kept (`View.Nameable.own`).  In the tree all paths lead where they led, and one more path leads to
the new file (`View.Room.leads`), if the entry is in a block that the size of the directory covers.

`View.Own.room_grown` is for a directory that has got a block for it: there is room for a file in
it, if nothing else in the block has a name.
-/

namespace MosRv.Fs

open Prog View

/-! ## A name is stored -/

/-- `strcpy` to the name of an entry. -/
def View.putName (v : View) (g : FileRef) (c : List Byte) : View :=
  Function.update v g.block ((v g.block).strcpy (4 * g.word) c)

section

variable {blk : Block} {str : List Byte} {i k : ℕ}

/-- The words that `strcpy` leaves alone. -/
lemma strcpy_of_outside (h : k < i / 4 ∨ (i + str.length) / 4 < k) :
    blk.strcpy i str k = blk k := by
  induction str generalizing blk i with
  | nil =>
      rw [Block.strcpy, Block.setByte, Function.update_of_ne]
      rw [List.length_nil] at h
      omega
  | cons c str ih =>
      rw [List.length_cons] at h
      rw [Block.strcpy, ih (by omega), Block.setByte, Function.update_of_ne (by omega)]

lemma freeEntry_some {j n : ℕ} (h : freeEntry blk i n = some j) :
    i ≤ j ∧ j < i + n ∧ blk.byte (256 * j) = 0#8 := by
  induction n generalizing i with
  | zero => exact absurd h (by simp [freeEntry])
  | succ n ih =>
      rw [freeEntry] at h
      split_ifs at h with h0
      · obtain rfl := Option.some.inj h
        exact ⟨le_rfl, by omega, h0⟩
      · obtain ⟨hle, hlt, hj⟩ := ih h
        exact ⟨by omega, by omega, hj⟩

lemma freeEntry_congr {blk' : Block} {n : ℕ}
    (h : ∀ j, i ≤ j → j < i + n → (blk'.byte (256 * j) = 0#8 ↔ blk.byte (256 * j) = 0#8)) :
    freeEntry blk' i n = freeEntry blk i n := by
  induction n generalizing i with
  | zero => rfl
  | succ n ih =>
      rw [freeEntry, freeEntry, ih fun j hj hlt => h j (by omega) (by omega)]
      exact if_congr (h i le_rfl (by omega)) rfl rfl

end

/-! ## Blank entries -/

/-- A regular file without contents and without blocks. -/
structure View.Blank (v : View) (g : FileRef) : Prop where
  type : v.field g F_TYPE = FTYPE_REG
  size : v.field g F_SIZE = 0#32
  num : ∀ sl : Slot, sl.Ok → v.num g sl = 0

section

variable {O : Set FileRef} {v v' v'' : View} {f g d d' : FileRef} {sl sl' : Slot} {j j' k n : ℕ}
variable {c c' : List Byte} {cs pre : List (List Byte)}

/-- All words of the file from its size to its slots are 0. -/
lemma View.blank_iff : v.Blank g ↔ ∀ k, F_SIZE ≤ k → k < F_DIR → v.field g k = 0#32 := by
  constructor
  · rintro ⟨htype, hsize, hnum⟩ k hk hk'
    simp only [F_SIZE, F_DIR] at hk hk'
    obtain rfl | rfl | ⟨i, hi, rfl⟩ | rfl : k = F_SIZE ∨ k = F_TYPE ∨
        (∃ i < NDIRECT, k = F_DIRECT + i) ∨ k = F_INDIRECT := by
      simp only [F_SIZE, F_TYPE, F_DIRECT, F_INDIRECT, NDIRECT]
      by_cases h1 : k = 32
      · exact .inl h1
      · by_cases h2 : k = 33
        · exact .inr (.inl h2)
        · by_cases h3 : k = 44
          · exact .inr (.inr (.inr h3))
          · exact .inr (.inr (.inl ⟨k - 34, by omega, by omega⟩))
    · exact hsize
    · exact htype
    · exact BitVec.eq_of_toNat_eq (hnum (.direct i) (.inr hi))
    · exact BitVec.eq_of_toNat_eq (hnum .indirect Slot.ok_indirect)
  · intro h
    refine ⟨h F_TYPE (by decide) (by decide), h F_SIZE le_rfl (by decide), fun sl hsl => ?_⟩
    have hind := h F_INDIRECT (by decide) (by decide)
    cases sl with
    | direct i =>
        have hi : i < 10 := hsl.resolve_left (by simp)
        rw [View.num, h (F_DIRECT + i) (by simp only [F_SIZE, F_DIRECT]; omega)
          (by simp only [F_DIRECT, F_DIR]; omega)]
        rfl
    | indirect => rw [View.num, hind]; rfl
    | index i => rw [View.num, if_pos hind]

lemma View.blank_congr (h : ∀ k, F_SIZE ≤ k → k < F_DIR → v'.field g k = v.field g k) :
    v'.Blank g ↔ v.Blank g := by
  rw [View.blank_iff, View.blank_iff]
  exact forall₃_congr fun k hk hk' => by rw [h k hk hk']

lemma View.Blank.not_isDir (h : v.Blank g) : ¬ v.IsDir g := by
  rw [View.IsDir, h.type]
  decide

/-! ## What the name of an entry has to do with the other files -/

lemma putName_of_outside (hlen : c.length < MAXNAMELEN) {b : ℕ}
    (h : b = g.block → k < g.word ∨ g.word + F_SIZE ≤ k) : v.putName g c b k = v b k := by
  rw [View.putName]
  by_cases hb : b = g.block
  · subst hb
    rw [Function.update_self]
    refine strcpy_of_outside ?_
    simp only [MAXNAMELEN] at hlen
    simp only [F_SIZE, true_imp_iff] at h
    omega
  · rw [Function.update_of_ne hb]

lemma putName_of_ne {b : ℕ} (hb : b ≠ g.block) : v.putName g c b = v b :=
  Function.update_of_ne hb _ _

/-- The name is stored. -/
lemma name_putName_self (hstr : IsString c) (hlen : c.length < MAXNAMELEN) :
    (v.putName g c).name g = c := by
  rw [View.name, View.putName, Function.update_self, ← strEq_iff hstr hlen]
  exact strEq_strcpy

/-- The other entries keep their names. -/
lemma name_putName_of_ne (hlen : c.length < MAXNAMELEN) {b b' j' : ℕ}
    (hne : FileRef.entry b j ≠ .entry b' j') :
    (v.putName (.entry b' j') c).name (.entry b j) = v.name (.entry b j) := by
  rw [View.name, View.name]
  refine str_congr fun i hi => ?_
  rw [Block.byte, Block.byte, putName_of_outside hlen]
  intro hb
  simp only [MAXNAMELEN] at hi
  simp only [FileRef.entry] at hb hne ⊢
  have hj : j ≠ j' := fun hj => hne (by rw [hb, hj])
  simp only [F_SIZE]
  omega

/-- A word of a file behind its name is in the name of no entry. -/
lemma View.Own.outside_name (h : v.Own O) (hf : v.Live O f) (hd : v.Live O d) (hsl : sl.Data)
    (hne : v.num d sl ≠ 0) (hk : F_SIZE ≤ k) (hk' : k < 64)
    (hb : f.block = (FileRef.entry (v.num d sl) j).block) :
    f.word + k < (FileRef.entry (v.num d sl) j).word ∨
      (FileRef.entry (v.num d sl) j).word + F_SIZE ≤ f.word + k := by
  have hgt := (h.range d sl hd hsl.ok hne).1
  have h2 := @two_le_lastReserved v
  simp only [F_SIZE] at hk ⊢
  obtain rfl | ⟨d', sl', j', -, -, -, -, -, rfl⟩ := hf.cases_on_place
  · simp only [FileRef.root, FileRef.entry] at hb
    omega
  · simp only [FileRef.entry]
    omega

/-- A word behind the name of a file is stored: the names of the entries are the same. -/
lemma View.Own.name_store_field (h : v.Own O) (hf : v.Live O f) (hd : v.Live O d) (hsl : sl.Data)
    (hne : v.num d sl ≠ 0) (hk : F_SIZE ≤ k) (hk' : k < 64) (w : Word) :
    (v.store f.block (f.word + k) w).name (.entry (v.num d sl) j) = v.name
    (.entry (v.num d sl) j) := by
  refine name_store ?_
  rintro ⟨hb, hlo, hhi⟩
  rcases h.outside_name hf hd hsl hne hk hk' hb.symm with hlt | hge <;> omega

/-- `g` is a blank entry of the directory `d`, and `c` a name for it. -/
structure View.Nameable (O : Set FileRef) (v : View) (d g : FileRef) (c : List Byte) : Prop where
  live : v.Live O d
  isDir : v.IsDir d
  place : ∃ (sl : Slot) (j : ℕ), sl.Data ∧ v.num d sl ≠ 0 ∧ j < FILE2BLK ∧
    g = .entry (v.num d sl) j
  blank : v.Blank g
  ne_nil : c ≠ []
  string : IsString c
  short : c.length < MAXNAMELEN

namespace View.Nameable

variable (hn : Nameable O v d g c) (h : v.Own O)
include hn h

lemma field (hf : v.Live O f) (hk : F_SIZE ≤ k) (hk' : k < 64) :
    (v.putName g c).field f k = v.field f k := by
  obtain ⟨sl, j, hsl, hne, -, rfl⟩ := hn.place
  exact putName_of_outside hn.short fun hb => h.outside_name hf hn.live hsl hne hk hk' hb

omit h in
lemma field_self (hk : F_SIZE ≤ k) : (v.putName g c).field g k = v.field g k :=
  putName_of_outside hn.short fun _ => .inr (Nat.add_le_add_left hk _)

omit h in
lemma blank_self : (v.putName g c).Blank g :=
  (blank_congr fun _ hk _ => hn.field_self hk).mpr hn.blank

lemma isDir_iff (hf : v.Live O f) : (v.putName g c).IsDir f ↔ v.IsDir f := by
  rw [View.IsDir, View.IsDir, hn.field h hf (by decide) (by decide)]

lemma num (hf : v.Live O f) (hsl : sl.Ok) : (v.putName g c).num f sl = v.num f sl := by
  have hind : (v.putName g c).field f F_INDIRECT = v.field f F_INDIRECT :=
    hn.field h hf (by decide) (by decide)
  cases sl with
  | direct i =>
      have hi : i < 10 := hsl.resolve_left nofun
      rw [View.num, View.num, hn.field h hf (by simp only [F_SIZE, F_DIRECT]; omega)
        (by simp only [F_DIRECT]; omega)]
  | indirect => rw [View.num, View.num, hind]
  | index i =>
      rw [View.num, View.num, hind]
      by_cases h0 : v.field f F_INDIRECT = 0#32
      · rw [if_pos h0, if_pos h0]
      · rw [if_neg h0, if_neg h0]
        -- an entry is not in an indirect block
        refine congrArg BitVec.toNat (putName_of_outside hn.short fun hb => ?_)
        obtain ⟨sl', j, hsl', hne, -, rfl⟩ := hn.place
        exact absurd (h.inj d sl' f .indirect hn.live hf hsl'.ok Slot.ok_indirect hne hb.symm).2
          hsl'.ne_indirect

omit h in
lemma name_of_ne {b : ℕ} (hg : FileRef.entry b j ≠ g) :
    (v.putName g c).name (.entry b j) = v.name (.entry b j) := by
  obtain ⟨sl', j', hsl', hne', -, rfl⟩ := hn.place
  exact name_putName_of_ne hn.short hg

omit h in
lemma named_self : (v.putName g c).Named g := by
  by_contra hnot
  exact hn.ne_nil ((name_putName_self hn.string hn.short).symm.trans (name_eq_nil.mpr hnot))

omit h in
lemma named_iff {b : ℕ} (hg : FileRef.entry b j ≠ g) :
    (v.putName g c).Named (.entry b j) ↔ v.Named (.entry b j) := by
  rw [← not_iff_not, ← name_eq_nil, ← name_eq_nil, hn.name_of_ne hg]

/-- The entry comes to be live, and nothing else. -/
lemma live_iff : (v.putName g c).Live O f ↔ v.Live O f ∨ f = g := by
  constructor
  · intro hf
    induction hf with
    | root => exact .inl .root
    | @entry d' sl' j' _ hdir' hsl' hb hj' hn' ih =>
        obtain hd' | rfl := ih
        · rw [hn.num h hd' hsl'.ok] at hb hn' ⊢
          by_cases hg : FileRef.entry (v.num d' sl') j' = g
          · exact .inr hg
          · rw [hn.named_iff hg] at hn'
            exact .inl (.entry hd' ((hn.isDir_iff h hd').mp hdir') hsl' hb hj' hn')
        · exact absurd hdir' hn.blank_self.not_isDir
  · have hold : ∀ {f}, v.Live O f → (v.putName g c).Live O f := by
      intro f hf
      induction hf with
      | root => exact .root
      | @entry d' sl' j' hd' hdir' hsl' hb hj' hn' ih =>
          have hname : (v.putName g c).Named (.entry (v.num d' sl') j') ∨
              FileRef.entry (v.num d' sl') j' ∈ O := by
            by_cases hg : FileRef.entry (v.num d' sl') j' = g
            · rw [hg]
              exact .inl hn.named_self
            · exact hn'.imp_left (hn.named_iff hg).mpr
          rw [← hn.num h hd' hsl'.ok] at hb hname ⊢
          exact .entry ih ((hn.isDir_iff h hd').mpr hdir') hsl' hb hj' hname
    rintro (hf | rfl)
    · exact hold hf
    · obtain ⟨sl, j, hsl, hne, hj, rfl⟩ := hn.place
      have hname := hn.named_self
      generalize hv' : v.putName _ c = v' at hold hname ⊢
      have hnum : v'.num d sl = v.num d sl := hv' ▸ hn.num h hn.live hsl.ok
      have hdir : v'.IsDir d := hv' ▸ (hn.isDir_iff h hn.live).mpr hn.isDir
      rw [← hnum] at hne hname ⊢
      exact .entry (hold hn.live) hdir hsl hne hj (.inl hname)

lemma block_gt : v.lastReserved < g.block := by
  obtain ⟨sl, j, hsl, hne, -, rfl⟩ := hn.place
  exact (h.range d sl hn.live hsl.ok hne).1

lemma nblocks : (v.putName g c).nblocks = v.nblocks := by
  have hgt := hn.block_gt h
  have h2 := @two_le_lastReserved v
  rw [View.nblocks, putName_of_ne (by omega), View.nblocks]

lemma free_iff {b : ℕ} (hb : b < v.nblocks) : (v.putName g c).Free b ↔ v.Free b := by
  have hgt := hn.block_gt h
  exact free_congr (v := v) (fun b' hb' _ => putName_of_ne (by omega)) hb

/-- **A new file keeps the ownership invariant.** -/
lemma own : (v.putName g c).Own O := by
  have hgt := hn.block_gt h
  have h2 := @two_le_lastReserved v
  -- a file with a block was live before
  have hold : ∀ {f sl}, (v.putName g c).Live O f → sl.Ok → (v.putName g c).num f sl ≠ 0 →
      v.Live O f := fun hf hsl hne =>
    ((hn.live_iff h).mp hf).resolve_right fun heq => hne (heq ▸ hn.blank_self.num _ hsl)
  refine ⟨?_, hn.nblocks h ▸ h.small, fun b hb hfree => ?_, fun f sl hf hsl hne => ?_,
    fun f sl f' sl' hf hf' hsl hsl' hne heq => ?_⟩
  · rw [putName_of_ne (by omega)]
    exact h.magic
  · rw [hn.nblocks h] at hb
    rw [lastReserved_congr (hn.nblocks h)]
    exact h.reserved b hb ((hn.free_iff h hb).mp hfree)
  · have hf₀ := hold hf hsl hne
    rw [hn.num h hf₀ hsl] at hne ⊢
    obtain ⟨hgt', hlt, hused⟩ := h.range f sl hf₀ hsl hne
    rw [lastReserved_congr (hn.nblocks h), hn.nblocks h, hn.free_iff h hlt]
    exact ⟨hgt', hlt, hused⟩
  · have hf₀ := hold hf hsl hne
    have hf₀' := hold hf' hsl' (heq ▸ hne)
    rw [hn.num h hf₀ hsl] at hne heq
    rw [hn.num h hf₀' hsl'] at heq
    exact h.inj f sl f' sl' hf₀ hf₀' hsl hsl' hne heq

lemma parents (hp : v.Parents O) : (v.putName g c).Parents O := by
  have hentry : ∀ {e f}, v.Entry O e f → (v.putName g c).Entry O e f := by
    rintro e f ⟨hknown, hlive, hdir, sl, hsl, hnum⟩
    exact ⟨hknown, (hn.live_iff h).mpr (.inl hlive), (hn.isDir_iff h hlive).mpr hdir, sl, hsl,
      (hn.num h hlive hsl.ok).trans hnum⟩
  refine ⟨?_, fun f hf hlive hne => ?_⟩
  · rw [hn.field h .root (by decide) (by decide)]
    exact hp.root
  · -- an open entry was live before
    have hf₀ : v.Live O f := by
      obtain hf₀ | rfl := (hn.live_iff h).mp hlive
      · exact hf₀
      · obtain ⟨sl, j, hsl, hne', hj, rfl⟩ := hn.place
        exact .entry hn.live hn.isDir hsl hne' hj (.inr hf)
    rw [hn.field h hf₀ (by decide) (by decide)] at hne ⊢
    obtain ⟨e, he, heq⟩ := hp.open_ f hf hf₀ hne
    exact ⟨e, hentry he, heq⟩

end View.Nameable

/-! ## What a new file does to the tree -/

/-- The entry is in a block that the size of the directory covers. -/
def View.Covers (v : View) (d g : FileRef) : Prop :=
  ∃ i < (v.field d F_SIZE).toNat / BY2BLK, ∃ j < FILE2BLK, g = .entry (v.num d (.of i)) j

/-- The view `v₂` has the tree of `v`, and in the directory `d` there may be a new entry `g`. -/
structure View.Room (v v₂ : View) (d g : FileRef) : Prop where
  live : ∀ d', v.Live ∅ d' → v₂.Live ∅ d'
  isDir : ∀ d', v.Live ∅ d' → (v₂.IsDir d' ↔ v.IsDir d')
  filled : ∀ d', v.Live ∅ d' → v.IsDir d' → v.Filled d' → v₂.Filled d'
  holds : ∀ d' c g', v.Live ∅ d' → v.IsDir d' → v.Filled d' → c ≠ [] → g' ≠ g →
    (v₂.Holds d' c g' ↔ v.Holds d' c g')
  old : ∀ d' c, v.Live ∅ d' → v.IsDir d' → v.Filled d' → c ≠ [] → ¬ v.Holds d' c g
  covers : v₂.Covers d g

/-- The new file is held by its directory, under its name. -/
lemma View.Nameable.holds_iff (hn : Nameable ∅ v d g c) (h : v.Own ∅) (hcov : v.Covers d g)
    (hfill : v.Filled d) {g' : FileRef} (hd' : v.Live ∅ d') (hfill' : v.Filled d') :
    (v.putName g c).Holds d' c' g' ↔ g' ≠ g ∧ v.Holds d' c' g' ∨ d' = d ∧ g' = g ∧ c' = c := by
  have hsize : (v.putName g c).field d' F_SIZE = v.field d' F_SIZE :=
    hn.field h hd' le_rfl (by decide)
  rw [View.Holds, hsize]
  constructor
  · rintro ⟨i, hi, j, hj, rfl, hname⟩
    obtain ⟨hlt, hne⟩ := hfill' i hi
    rw [hn.num h hd' (Slot.data_of hlt).ok] at hname ⊢
    by_cases hg : FileRef.entry (v.num d' (.of i)) j = g
    · obtain ⟨i₀, hi₀, j₀, -, rfl⟩ := hcov
      have hb : v.num d' (.of i) = v.num d (.of i₀) := congrArg FileRef.block hg
      have hinj := h.inj d' _ d _ hd' hn.live (Slot.data_of hlt).ok
        (Slot.data_of (hfill i₀ hi₀).1).ok hne hb
      rw [hg, name_putName_self hn.string hn.short] at hname
      exact .inr ⟨hinj.1, hg, hname.symm⟩
    · rw [hn.name_of_ne hg] at hname
      exact .inl ⟨hg, i, hi, j, hj, rfl, hname⟩
  · rintro (⟨hg, i, hi, j, hj, rfl, hname⟩ | ⟨rfl, rfl, rfl⟩)
    · refine ⟨i, hi, j, hj, ?_, by rw [hn.name_of_ne hg, hname]⟩
      rw [hn.num h hd' (Slot.data_of (hfill' i hi).1).ok]
    · have hname := name_putName_self (v := v) (g := g') hn.string hn.short
      obtain ⟨i, hi, j, hj, hg⟩ := hcov
      refine ⟨i, hi, j, hj, ?_, hname⟩
      rw [hn.num h hd' (Slot.data_of (hfill' i hi).1).ok, hg]

section

variable {v₂ : View} (hr : v.Room v₂ d g) (hn : Nameable ∅ v₂ d g c) (h₂ : v₂.Own ∅)
variable (h : v.Own ∅) (ht : v.IsTree) (hd : v.Leads .root pre d)
include hr hn h₂ ht hd

/-- What the directories of the tree hold. -/
lemma View.Room.holds_putName {g' : FileRef} (hd' : v.Leads .root cs d') (hdir : v.IsDir d')
    (hc : c' ≠ []) :
    (v₂.putName g c).Holds d' c' g' ↔ v.Holds d' c' g' ∨ d' = d ∧ g' = g ∧ c' = c := by
  have hlive : v.Live ∅ d' := ht.live hd'
  have hfill := ht.filled cs d' hd' hdir
  have hdl : v.Live ∅ d := ht.live hd
  have hdir₀ : v.IsDir d := (hr.isDir d hdl).mp hn.isDir
  rw [hn.holds_iff h₂ hr.covers (hr.filled d hdl hdir₀ (ht.filled pre d hd hdir₀))
    (hr.live d' hlive) (hr.filled d' hlive hdir hfill)]
  refine or_congr_left ?_
  constructor
  · rintro ⟨hg, hhold⟩
    exact (hr.holds d' c' g' hlive hdir hfill hc hg).mp hhold
  · intro hhold
    have hg : g' ≠ g := by
      rintro rfl
      exact hr.old d' c' hlive hdir hfill hc hhold
    exact ⟨hg, (hr.holds d' c' g' hlive hdir hfill hc hg).mpr hhold⟩

omit hd in
lemma View.Room.isDir_putName (hf : v.Leads .root cs f) : (v₂.putName g c).IsDir f ↔ v.IsDir f := by
  have hlive : v.Live ∅ f := ht.live hf
  rw [hn.isDir_iff h₂ (hr.live f hlive), hr.isDir f hlive]

include h in
/-- **The paths lead where they led, and the new one leads to the new file.** -/
lemma View.Room.leads : (v₂.putName g c).Leads .root cs f ↔
    v.Leads .root cs f ∨ cs = pre ++ [c] ∧ f = g := by
  induction cs using List.reverseRecOn generalizing f with
  | nil => simp [View.leads_nil]
  | append_singleton cs c' ih =>
      rw [View.leads_concat, View.leads_concat]
      constructor
      · rintro ⟨d', hd₁, hdir', hc', hhold⟩
        obtain hd' | ⟨-, rfl⟩ := ih.mp hd₁
        · have hdir := (hr.isDir_putName hn h₂ ht hd').mp hdir'
          obtain hhold | ⟨rfl, rfl, rfl⟩ :=
            (hr.holds_putName hn h₂ ht hd hd' hdir hc').mp hhold
          · exact .inl ⟨d', hd', hdir, hc', hhold⟩
          · exact .inr ⟨by rw [h.leads_inj ht hd' hd], rfl⟩
        · exact absurd hdir' hn.blank_self.not_isDir
      · have hstep : ∀ {d'}, v.Leads .root cs d' → v.IsDir d' → c' ≠ [] →
            (v.Holds d' c' f ∨ d' = d ∧ f = g ∧ c' = c) → ∃ d',
              (v₂.putName g c).Leads .root cs d' ∧ (v₂.putName g c).IsDir d' ∧ c' ≠ [] ∧
                (v₂.putName g c).Holds d' c' f := fun hd' hdir hc' hhold =>
          ⟨_, ih.mpr (.inl hd'), (hr.isDir_putName hn h₂ ht hd').mpr hdir, hc',
            (hr.holds_putName hn h₂ ht hd hd' hdir hc').mpr hhold⟩
        rintro (⟨d', hd', hdir, hc', hhold⟩ | ⟨heq, rfl⟩)
        · exact hstep hd' hdir hc' (.inl hhold)
        · obtain ⟨rfl, hcc⟩ := List.append_inj' heq rfl
          obtain rfl : c' = c := by simpa using hcc
          exact hstep hd ((hr.isDir d (ht.live hd)).mp hn.isDir) hn.ne_nil (.inr ⟨rfl, rfl, rfl⟩)

include h in
/-- What comes to be is a tree, if the name was not there. -/
lemma View.Room.isTree (hno : ∀ g', ¬ v.Holds d c g') : (v₂.putName g c).IsTree := by
  have hdown : ∀ {cs d'}, (v₂.putName g c).Leads .root cs d' → (v₂.putName g c).IsDir d' →
      v.Leads .root cs d' ∧ v.IsDir d' := by
    intro cs d' hd' hdir'
    obtain hd' | ⟨-, rfl⟩ := (hr.leads hn h₂ h ht hd).mp hd'
    · exact ⟨hd', (hr.isDir_putName hn h₂ ht hd').mp hdir'⟩
    · exact absurd hdir' hn.blank_self.not_isDir
  refine ⟨fun cs d' hd' hdir' i hi => ?_, fun cs d' c' g' hd' hdir' hg => ?_,
    fun cs d' c' g₁ g₂ hd' hdir' hc hg₁ hg₂ => ?_⟩
  · obtain ⟨hd₀, hdir⟩ := hdown hd' hdir'
    have hlive : v.Live ∅ d' := ht.live hd₀
    rw [hn.field h₂ (hr.live d' hlive) le_rfl (by decide)] at hi
    obtain ⟨hlt, hne⟩ := hr.filled d' hlive hdir (ht.filled cs d' hd₀ hdir) i hi
    exact ⟨hlt, by rwa [hn.num h₂ (hr.live d' hlive) (Slot.data_of hlt).ok]⟩
  · obtain ⟨hd₀, hdir⟩ := hdown hd' hdir'
    by_cases hc : c' = []
    · rw [hc]
      decide
    · obtain hg | ⟨-, -, rfl⟩ := (hr.holds_putName hn h₂ ht hd hd₀ hdir hc).mp hg
      · exact ht.ends cs d' c' g' hd₀ hdir hg
      · exact hn.short
  · obtain ⟨hd₀, hdir⟩ := hdown hd' hdir'
    obtain hold₁ | ⟨rfl, rfl, rfl⟩ := (hr.holds_putName hn h₂ ht hd hd₀ hdir hc).mp hg₁
    · obtain hold₂ | ⟨rfl, -, rfl⟩ := (hr.holds_putName hn h₂ ht hd hd₀ hdir hc).mp hg₂
      · exact ht.unique cs d' c' g₁ g₂ hd₀ hdir hc hold₁ hold₂
      · exact absurd hold₁ (hno _)
    · obtain hold₂ | ⟨-, rfl, -⟩ := (hr.holds_putName hn h₂ ht hd hd₀ hdir hc).mp hg₂
      · exact absurd hold₂ (hno _)
      · rfl

end

/-! ## Where there is room for a new file -/

/-- A free entry that is covered already. -/
lemma View.Covers.room (hcov : v.Covers d g) (hfree : ¬ v.Named g) : v.Room v d g where
  live _ := id
  isDir _ _ := Iff.rfl
  filled _ _ _ := id
  holds _ _ _ _ _ _ _ _ := Iff.rfl
  old _ _ _ _ _ hc := fun ⟨_, _, _, _, _, hname⟩ => hc (hname.symm.trans (name_eq_nil.mpr hfree))
  covers := hcov

/-- The entries of the directories have the same names. -/
def View.SameNames (v v' : View) : Prop :=
  ∀ d (sl : Slot) j, v.Live ∅ d → sl.Data → v.num d sl ≠ 0 →
    v'.name (.entry (v.num d sl) j) = v.name (.entry (v.num d sl) j)

lemma View.Own.name_setSlot (h : v.Own O) (hf : v.Live O f) (hsl' : sl'.Ok)
    (hhas : v.HasSlot f sl') (hd : v.Live O d) (hsl : sl.Data) (hne : v.num d sl ≠ 0) (b : ℕ) :
    (v.setSlot f sl' b).name (.entry (v.num d sl) j) = v.name (.entry (v.num d sl) j) := by
  rw [setSlot]
  rcases slot_place (v := v) (f := f) hsl' with ⟨k, hlo, hhi, hk⟩ | ⟨i, rfl, hk⟩
  · rw [hk]
    simp only [F_DIRECT, F_INDIRECT] at hlo hhi
    exact h.name_store_field hf hd hsl hne (by simp only [F_SIZE]; omega) (by omega) _
  · rw [hk]
    refine name_store fun hc => ?_
    exact hsl.ne_indirect (h.inj d sl f .indirect hd hf hsl.ok Slot.ok_indirect hne hc.1).2

/-- A block that is put into a slot changes no names. -/
lemma View.Own.sameNames_fill (h : v.Own ∅) {b : ℕ} {z : Block} (hb : v.FirstFree b)
    (hf : v.Live ∅ f) (hsl : sl.Ok) (hhas : v.HasSlot f sl) : v.SameNames (v.fill f sl b z) := by
  intro d sl' j hd hsl' hne
  have ha := h.agree_take hb z
  have ht : (v.take b z).Own ∅ := h.shrink (h.shrinks_take hb z)
  have hnum := ha.num hd hsl'.ok
  obtain ⟨hgt, -, hused⟩ := h.range d sl' hd hsl'.ok hne
  have hname : (v.take b z).name (.entry (v.num d sl') j) = v.name (.entry (v.num d sl') j) := by
    rw [View.name, View.name]
    refine str_congr fun i _ => ?_
    rw [Block.byte, Block.byte]
    change Bits.byte (v.take b z (v.num d sl') _) _ = _
    rw [h.take_of_ne hb (.inr ⟨hgt, fun heq => hused (heq ▸ hb.free)⟩)]
    rfl
  have hhas' : (v.take b z).HasSlot f sl := by
    cases sl with
    | direct i => trivial
    | indirect => trivial
    | index i =>
        change (v.take b z).num f .indirect ≠ 0
        rw [ha.num hf Slot.ok_indirect]
        exact hhas
  rw [View.fill, ← hname, ← hnum]
  exact ht.name_setSlot (ha.live.mpr hf) hsl hhas' (ha.live.mpr hd) hsl' (hnum ▸ hne) b

/-- The block behind those that the size of the directory covers. -/
def View.nextSlot (v : View) (d : FileRef) : Slot := .of ((v.field d F_SIZE).toNat / BY2BLK)

/-- The size counts one more block. -/
def View.grow (v : View) (d : FileRef) : View :=
  v.store d.block (d.word + F_SIZE) (v.field d F_SIZE + BitVec.ofNat 32 BY2BLK)

lemma View.Filled.size_grow (hfill : v.Filled d) :
    (v.field d F_SIZE + BitVec.ofNat 32 BY2BLK).toNat / BY2BLK =
      (v.field d F_SIZE).toNat / BY2BLK + 1 := by
  have hle : (v.field d F_SIZE).toNat / BY2BLK ≤ NINDIRECT := by
    by_contra hgt
    exact absurd (hfill NINDIRECT (not_le.mp hgt)).1 (lt_irrefl _)
  rw [BitVec.toNat_add, BitVec.toNat_ofNat]
  simp only [BY2BLK, NINDIRECT] at hle ⊢
  omega

lemma View.field_grow_self : (v.grow d).field d F_SIZE =
    v.field d F_SIZE + BitVec.ofNat 32 BY2BLK := by
  rw [View.grow, View.field, store_apply, if_pos ⟨rfl, rfl⟩]

lemma View.Own.field_grow (h : v.Own O) (hd : v.Live O d) (hf : v.Live O f) (hne : f ≠ d) :
    (v.grow d).field f F_SIZE = v.field f F_SIZE :=
  field_store fun hc => hne (h.disjoint hf hd (k := F_SIZE) (l := F_SIZE) (by decide) (by decide)
    hc.1 hc.2).1

/-- **A directory that has got a block has room in it**, if nothing else in the block has a name. -/
lemma View.Own.room_grown {v₂ : View} (h : v.Own ∅) (h₂ : v₂.Own ∅) (hd : v.Live ∅ d)
    (hdir : v.IsDir d) (hfill : v.Filled d) (hx : Extends ∅ (v.grow d) v₂) (hnames : v.SameNames v₂)
    (hn : (v.field d F_SIZE).toNat / BY2BLK < NINDIRECT) (hne : v₂.num d (v.nextSlot d) ≠ 0)
    (hfree : ∀ j < FILE2BLK, j ≠ 0 → ¬ v₂.Named (.entry (v₂.num d (v.nextSlot d)) j)) :
    v.Room v₂ d (.entry (v₂.num d (v.nextSlot d)) 0) := by
  have hagree := h.agree_field hd (k := F_SIZE) (by decide) (by decide)
    (v.field d F_SIZE + BitVec.ofNat 32 BY2BLK)
  have hlive : ∀ {f}, v.Live ∅ f → (v.grow d).Live ∅ f := fun hf => hagree.live.mpr hf
  have hnum : ∀ {f sl}, v.Live ∅ f → sl.Ok → v.num f sl ≠ 0 → v₂.num f sl = v.num f sl := by
    intro f sl hf hsl hne
    have heq : (v.grow d).num f sl = v.num f sl := hagree.num hf hsl
    rw [hx.num f sl (hlive hf) hsl (heq.trans_ne hne), heq]
  have hsize : ∀ {f}, v.Live ∅ f → f ≠ d → v₂.field f F_SIZE = v.field f F_SIZE := fun hf hfd =>
    (hx.field _ F_SIZE (hlive hf) (by decide)).trans (h.field_grow hd hf hfd)
  have hsize_d : (v₂.field d F_SIZE).toNat / BY2BLK = (v.field d F_SIZE).toNat / BY2BLK + 1 := by
    rw [hx.field d F_SIZE (hlive hd) (by decide), View.field_grow_self, hfill.size_grow]
  -- a covered block was covered before, or it is the new one
  have hcover : ∀ {f i}, v.Live ∅ f → i < (v₂.field f F_SIZE).toNat / BY2BLK →
      i < (v.field f F_SIZE).toNat / BY2BLK ∨ f = d ∧ i = (v.field d F_SIZE).toNat / BY2BLK := by
    intro f i hf hi
    by_cases hfd : f = d
    · subst hfd
      rw [hsize_d] at hi
      exact (Nat.lt_succ_iff_lt_or_eq.mp hi).imp_right fun heq => ⟨rfl, heq⟩
    · rw [hsize hf hfd] at hi
      exact .inl hi
  have hcover' : ∀ {f i}, v.Live ∅ f → i < (v.field f F_SIZE).toNat / BY2BLK →
      i < (v₂.field f F_SIZE).toNat / BY2BLK := by
    intro f i hf hi
    by_cases hfd : f = d
    · subst hfd
      rw [hsize_d]
      exact Nat.lt_succ_of_lt hi
    · rwa [hsize hf hfd]
  refine ⟨fun f hf => hx.live f (hlive hf), fun f hf => ?_, fun f hf hfdir hffill i hi => ?_,
    fun f c g hf hfdir hffill hc hg => ?_, fun f c hf hfdir hffill hc => ?_, ?_⟩
  · rw [hx.isDir (hlive hf)]
    exact hagree.isDir hf
  · obtain hi | ⟨rfl, rfl⟩ := hcover hf hi
    · obtain ⟨hlt, hne'⟩ := hffill i hi
      exact ⟨hlt, (hnum hf (Slot.data_of hlt).ok hne').trans_ne hne'⟩
    · exact ⟨hn, hne⟩
  · constructor
    · rintro ⟨i, hi, j, hj, rfl, hname⟩
      obtain hi | ⟨rfl, rfl⟩ := hcover hf hi
      · obtain ⟨hlt, hne'⟩ := hffill i hi
        have hsl := Slot.data_of hlt
        rw [hnum hf hsl.ok hne'] at hname ⊢
        exact ⟨i, hi, j, hj, rfl, (hnames f _ j hf hsl hne').symm.trans hname⟩
      · have hj0 : j ≠ 0 := fun h0 => hg (by rw [h0]; rfl)
        exact absurd (hname.symm.trans (name_eq_nil.mpr (hfree j hj hj0))) hc
    · rintro ⟨i, hi, j, hj, rfl, hname⟩
      obtain ⟨hlt, hne'⟩ := hffill i hi
      have hsl := Slot.data_of hlt
      refine ⟨i, hcover' hf hi, j, hj, by rw [hnum hf hsl.ok hne'], ?_⟩
      rw [hnames f _ j hf hsl hne', hname]
  · rintro ⟨i, hi, j, -, heq, -⟩
    obtain ⟨hlt, hne'⟩ := hffill i hi
    have hsl := Slot.data_of hlt
    have hblock : v₂.num d (v.nextSlot d) = v₂.num f (.of i) :=
      (congrArg FileRef.block heq).trans (hnum hf hsl.ok hne').symm
    obtain ⟨rfl, hof⟩ := h₂.inj d _ f _ (hx.live d (hlive hd)) (hx.live f (hlive hf))
      (Slot.data_of hn).ok hsl.ok hne hblock
    have := Slot.of_inj hof
    omega
  · exact ⟨_, hsize_d ▸ Nat.lt_succ_self _, 0, by decide, rfl⟩

lemma View.SameNames.trans (h : v.SameNames v') (h' : v'.SameNames v'')
    (hlive : ∀ f, v.Live ∅ f → v'.Live ∅ f)
    (hnum : ∀ f sl, v.Live ∅ f → sl.Ok → v.num f sl ≠ 0 → v'.num f sl = v.num f sl) :
    v.SameNames v'' := by
  intro d sl j hd hsl hne
  have heq := hnum d sl hd hsl.ok hne
  have hname := h' d sl j (hlive d hd) hsl (heq.trans_ne hne)
  rw [heq] at hname
  exact hname.trans (h d sl j hd hsl hne)

/-- The names of the entries are not in the size of a directory. -/
lemma View.Own.sameNames_grow (h : v.Own ∅) (hd : v.Live ∅ d) : v.SameNames (v.grow d) :=
  fun _ _ _ hd' hsl hne => h.name_store_field hd hd' hsl hne le_rfl (by decide) _

end

end MosRv.Fs
