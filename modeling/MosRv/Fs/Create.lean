import MosRv.Fs.NewBlocks
import MosRv.Fs.NewFile

/-!
# Creating a file (`dir_alloc_file`, `file_create`)

`Server.Created` is what creating a file at a path should come to: the path finds the file, it is a
regular file without contents, and all other paths lead where they led.  `Server.Refused` is what an
error should mean: it says what is wrong, and all files are as they were.

`file_create` takes the first entry of the directory without a name, or the first entry of a new
block, and stores the name there.  It stores nothing else, so the new file is what the entry was
before: after a directory has been removed it is a directory.  A new block comes with the page that
it has, so there too the new file may be anything, and other names may come to be seen
(`Server.FreshNext`).  And if there is no free entry, the size of the directory is changed before
the block is there; if it does not come, the directory has a hole, and the error is the one of the
walk, which says that the file does not exist.

`file_create_iff` says that there are no other cases.  If old contents come back as an indirect
block of the directory (`Server.RecyclesIndex`), its blocks may be any blocks, and it says nothing.
-/

namespace MosRv.Fs

open Prog View

/-! ## The block that a directory gets -/

/-- The block has room for a new file: its first entry is blank but for the name, and the others
have no names. -/
def Block.Fresh (blk : Block) : Prop :=
  (∀ k, F_SIZE ≤ k → k < F_DIR → blk k = 0#32) ∧
    ∀ j < FILE2BLK, j ≠ 0 → blk.byte (256 * j) = 0#8

/-- The directory has the same blocks, and the same blocks are free, with the same pages. -/
structure Server.SameRoom (s s' : Server) (d : FileRef) : Prop where
  num : ∀ sl : Slot, sl.Ok → s'.view.num d sl = s.view.num d sl
  free : ∀ b < s.view.nblocks, s'.view.Free b ↔ s.view.Free b
  nblocks : s'.view.nblocks = s.view.nblocks
  page : ∀ b < s.view.nblocks, s.view.Free b → s'.page b = s.page b

section

variable {O O' : Set FileRef} {s s' : Server} {v v' : View} {d f g : FileRef} {b n : ℕ}

lemma fresh_iff : (v b).Fresh ↔
    v.Blank (.entry b 0) ∧ ∀ j < FILE2BLK, j ≠ 0 → ¬ v.Named (.entry b j) := by
  have hword : ∀ k, v.field (.entry b 0) k = v b k := fun k => by
    rw [View.field, FileRef.entry, Nat.mul_zero, Nat.zero_add]
  have hbyte : ∀ j, (v b).byte (256 * j) = 0#8 ↔ ¬ v.Named (.entry b j) := fun j => by
    rw [View.Named, not_not, FileRef.entry, show 4 * (64 * j) = 256 * j by omega]
  rw [Block.Fresh, View.blank_iff]
  simp only [hword, hbyte]

lemma View.FirstFree.congr (hn : v'.nblocks = v.nblocks)
    (hfree : ∀ c < v.nblocks, v'.Free c ↔ v.Free c) : v'.FirstFree b ↔ v.FirstFree b := by
  constructor
  · rintro ⟨hge, hlt, hb, hfirst⟩
    rw [hn] at hlt
    exact ⟨hge, hlt, (hfree b hlt).mp hb,
      fun c h3 hc hc' => hfirst c h3 hc ((hfree c (hc.trans hlt)).mpr hc')⟩
  · rintro ⟨hge, hlt, hb, hfirst⟩
    exact ⟨hge, hn ▸ hlt, (hfree b hlt).mpr hb,
      fun c h3 hc hc' => hfirst c h3 hc ((hfree c (hc.trans hlt)).mp hc')⟩

lemma Server.SameRoom.firstFree (h : s.SameRoom s' d) :
    s'.view.FirstFree b ↔ s.view.FirstFree b :=
  View.FirstFree.congr h.nblocks h.free

lemma Server.SameRoom.hasSlot (h : s.SameRoom s' d) :
    s'.view.HasSlot d (.of n) ↔ s.view.HasSlot d (.of n) := by
  by_cases hd : n < NDIRECT
  · rw [Slot.of_direct hd]
    exact Iff.rfl
  · rw [Slot.of_index hd]
    exact not_congr (by rw [h.num .indirect Slot.ok_indirect])

lemma Server.SameRoom.takesIndirect (h : s.SameRoom s' d) :
    s'.TakesIndirect d n b ↔ s.TakesIndirect d n b :=
  and_congr (not_congr h.hasSlot) h.firstFree

/-- The same block is taken for the directory. -/
lemma Server.SameRoom.takesData (h : s.SameRoom s' d) (hs : s.view.Own O) (hs' : s'.view.Own O')
    (hd : s.view.Live O d) (hd' : s'.view.Live O' d) (hn : n < NINDIRECT) :
    s'.TakesData d n b ↔ s.TakesData d n b := by
  rw [Server.TakesData, Server.TakesData, h.hasSlot, h.num _ (Slot.data_of hn).ok, h.firstFree]
  refine or_congr Iff.rfl (and_congr_right fun hnot => exists_congr fun b₁ => ?_)
  rw [h.firstFree]
  refine and_congr_right fun hb₁ => ?_
  -- which block is free then does not depend on what is in them
  have hb₁' := h.firstFree.mpr hb₁
  obtain ⟨-, hempty⟩ := (hasSlot_or s.view d n).resolve_left hnot
  have hempty' : s'.view.num d .indirect = 0 := (h.num _ Slot.ok_indirect).trans hempty
  have hx := hs.extends_fill (z := s.page b₁) hb₁ hd Slot.ok_indirect trivial hempty
  have hx' := hs'.extends_fill (z := s'.page b₁) hb₁' hd' Slot.ok_indirect trivial hempty'
  refine View.FirstFree.congr (by rw [hx'.nblocks, hx.nblocks, h.nblocks]) fun c hc => ?_
  rw [hx.nblocks] at hc
  rw [hs'.free_fill hb₁' hd' Slot.ok_indirect trivial (h.nblocks ▸ hc),
    hs.free_fill hb₁ hd Slot.ok_indirect trivial hc, h.free c hc]

/-- A block that is taken was free. -/
lemma Server.Sound.free_of_takesData (h : s.Sound O) (hd : s.view.Live O d)
    (ht : s.TakesData d n b) : b < s.view.nblocks ∧ s.view.Free b := by
  obtain ⟨-, -, hb⟩ | ⟨hnot, b₁, hb₁, hb⟩ := ht
  · exact ⟨hb.lt, hb.free⟩
  · obtain ⟨-, hempty⟩ := (hasSlot_or s.view d n).resolve_left hnot
    have hx := h.own.extends_fill (z := s.page b₁) hb₁ hd Slot.ok_indirect trivial hempty
    have hlt := hx.nblocks ▸ hb.lt
    exact ⟨hlt, hx.free b hlt hb.free⟩

/-- The slot is there: it was, or an indirect block of zeros has been put there. -/
structure View.Opens (v : View) (f : FileRef) (n : ℕ) (u : View) : Prop where
  edits : Edits ∅ v u
  extends_ : Extends ∅ v u
  names : v.SameNames u
  hasSlot : u.HasSlot f (.of n)
  empty : u.num f (.of n) = 0

lemma View.Own.opens_half (h : v.Own ∅) (hf : v.Live ∅ f) (hn : n < NINDIRECT)
    (hnot : ¬ v.HasSlot f (.of n)) (hb : v.FirstFree b) :
    v.Opens f n (v.fill f .indirect b Block.zero) := by
  obtain ⟨hd, hempty⟩ := (hasSlot_or v f n).resolve_left hnot
  refine ⟨h.edits_fill hb hf Slot.ok_indirect trivial hempty fun _ => rfl,
    h.extends_fill hb hf Slot.ok_indirect trivial hempty,
    h.sameNames_fill hb hf Slot.ok_indirect trivial, ?_,
    h.num_fill_indirect hb hf hempty hn hd⟩
  rw [Slot.of_index hd]
  change (v.fill f .indirect b Block.zero).num f .indirect ≠ 0
  rw [h.num_fill hb hf Slot.ok_indirect trivial hempty]
  have := hb.ge
  omega

lemma View.Own.slotAddr_fill (h : v.Own O) (hf : v.Live O f) (hb : v.FirstFree b) {z : Block}
    (hn : n < NINDIRECT) (hhas : v.HasSlot f (.of n)) (hempty : v.num f (.of n) = 0) :
    (v.fill f (.of n) b z).slotAddr f (.of n) = v.slotAddr f (.of n) := by
  by_cases hd : n < NDIRECT
  · rw [Slot.of_direct hd]
    rfl
  · have hx := h.extends_fill (z := z) hb hf (Slot.data_of hn).ok hhas hempty
    rw [Slot.of_index hd] at hhas hx ⊢
    exact Prod.ext (hx.num f .indirect hf Slot.ok_indirect hhas) rfl

/-- **A block that is not there is got**: a free block is taken for it, with the page that it has.
-/
lemma Server.Sound.wp_fileGetBlock_new (h : s.Sound ∅) (hf : s.view.Live ∅ f)
    (hm : (s.cache f.block).isSome) (hn : n < NINDIRECT) (hempty : s.view.num f (.of n) = 0)
    (hindex : ∀ b, s.TakesIndirect f n b → s.page b = Block.zero) :
    wp (fileGetBlock f n) s
      (fun b s' => ∃ u, s.view.Opens f n u ∧ u.FirstFree b ∧ s.TakesData f n b ∧
        s.Becomes (u.fill f (.of n) b (s.page b)) s' ∧ (s'.cache b).isSome)
      (fun _ _ => True) Panic.Memory := by
  have hsl := Slot.data_of hn
  rw [fileGetBlock, wp_bind, fileMapBlock, wp_bind]
  refine (h.wp_fileBlockWalk hf hm true fun _ hnot _ b hb => hindex b ⟨hnot, hb⟩).mono ?_
    (fun _ _ _ => trivial) fun _ hp => hp
  rintro ptr s₁ ⟨-, hr, hk, hlive, hhas, rfl, hmap, hcase⟩
  have h₁ := h.runs hr
  -- after the walk the slot is there, and empty
  have hopens : s.view.Opens f n s₁.view := by
    obtain ⟨hhas₀, hview⟩ | ⟨-, hnot, b, hb, hview⟩ := hcase
    · rw [hview]
      exact ⟨.refl, .refl, fun _ _ _ _ _ _ => rfl, hhas₀, hempty⟩
    · rw [hview, hindex b ⟨hnot, hb⟩]
      exact h.own.opens_half hf hn hnot hb
  have htakes : ∀ {b}, s₁.view.FirstFree b → s.TakesData f n b := by
    intro b hb
    obtain ⟨hhas₀, hview⟩ | ⟨-, hnot, b₁, hb₁, hview⟩ := hcase
    · exact .inl ⟨hhas₀, hempty, hview ▸ hb⟩
    · exact .inr ⟨hnot, b₁, hb₁, hview ▸ hb⟩
  rw [wp_bind]
  refine (h₁.wp_fillSlot hlive hhas hmap true).mono ?_ (fun _ _ _ => trivial) fun _ hp => hp
  rintro - s₂ (⟨hne, -⟩ | ⟨-, -, b, hb, hbec, -, -⟩)
  · exact absurd hopens.empty hne
  have hb0 : b ≠ 0 := by
    have := hb.ge
    omega
  have hnum : s₂.view.num f (.of n) = b := by
    rw [hbec.view, h₁.own.num_fill hb hlive hsl.ok hhas hopens.empty]
  have hhas₂ := hasSlot_of_num_ne_zero (hnum.trans_ne hb0)
  have haddr : s₂.view.slotAddr f (.of n) = s₁.view.slotAddr f (.of n) := by
    rw [hbec.view]
    exact h₁.own.slotAddr_fill hlive hb hn hhas hopens.empty
  have hx := h₁.own.extends_fill (z := s₁.page b) hb hlive hsl.ok hhas hopens.empty
  rw [wp_bind, ← haddr, wp_loadWord (haddr ▸ hbec.mapped _ hmap), wp_pure, ← num_eq hhas₂, hnum,
    wp_bind]
  have hlt : b < s₂.view.nblocks := by
    rw [hbec.view, hx.nblocks]
    exact hb.lt
  have hused : ¬ s₂.view.Free b := by
    rw [hbec.view, h₁.own.free_fill hb hlive hsl.ok hhas hb.lt]
    exact fun hc => hc.2 rfl
  have hst := h₁.started.becomes hbec (hbec.view ▸ hx.nblocks)
  refine (wp_readBlock (E := fun _ _ => True) (P := Panic.Memory) hst hlt hused rfl).mono ?_
    (fun _ _ _ => trivial) fun _ hp => hp
  rintro - s₃ ⟨hbec₃, hmap₃, -⟩
  have hpage : s₁.page b = s.page b :=
    (hk b (hr.edits.nblocks h.own ▸ hb.lt) hb.free).2
  rw [hbec.view] at hbec₃
  rw [wp_pure]
  exact ⟨s₁.view, hopens, hb, htakes hb, hpage ▸ (hr.becomes.trans hbec).trans hbec₃, hmap₃⟩

/-! ### When there is no block -/

/-- The blocks that are free are not those of the bitmap. -/
def View.Reserves (v : View) : Prop := ∀ b < v.nblocks, v.Free b → v.lastReserved < b

lemma wp_fillSlot_exit {ptr : ℕ × ℕ} {alloc : Bool} (h : s.Started) (hres : s.view.Reserves)
    (hm : (s.cache ptr.1).isSome) :
    wp (fillSlot ptr alloc) s (fun _ _ => True) (fun _ s' => s'.view = s.view) fun _ => True := by
  rw [fillSlot, wp_bind, wp_loadWord hm, wp_ite]
  refine ⟨fun _ => ?_, fun _ => trivial⟩
  rw [wp_ite]
  refine ⟨fun _ => ?_, fun _ => rfl⟩
  rw [wp_bind]
  refine (wp_allocBlock (P := fun _ => True) h hres).mono ?_ (fun _ _ he => he.2.1.view)
    fun _ _ => trivial
  exact fun b s₁ _ => ((exits_storeWord (C := fun _ => False) _ _ _).wp_true s₁).mono
    (fun _ _ _ => trivial) (fun _ _ he => he.elim) fun _ _ => trivial

/-- The walk to a slot leaves the size of the file alone, whatever a new indirect block holds. -/
lemma Server.Sound.wp_fileBlockWalk_size (h : s.Sound O) (hf : s.view.Live O f)
    (hm : (s.cache f.block).isSome) :
    wp (fileBlockWalk f n true) s
      (fun ptr s' => s'.Started ∧ s'.view.Reserves ∧ (s'.cache ptr.1).isSome ∧
        s'.view.field f F_SIZE = s.view.field f F_SIZE)
      (fun _ s' => s'.view.field f F_SIZE = s.view.field f F_SIZE) fun _ => True := by
  rw [fileBlockWalk, wp_ite]
  refine ⟨fun _ => ⟨h.started, h.own.reserved, hm, rfl⟩, fun _ => ?_⟩
  rw [wp_ite]
  refine ⟨fun _ => ?_, fun _ => rfl⟩
  rw [wp_bind]
  refine (@Server.Sound.wp_fillSlot _ _ _ .indirect h hf trivial hm true).mono ?_ ?_
    fun _ _ => trivial
  · -- the indirect block is in use, so it can be loaded
    have hload : ∀ (s₁ : Server) (b : ℕ), s₁.Started → s₁.view.Reserves →
        (s₁.cache f.block).isSome → s₁.view.field f F_SIZE = s.view.field f F_SIZE →
        s₁.view.num f .indirect = b → b < s₁.view.nblocks → ¬ s₁.view.Free b →
        wp (do let b ← loadField f F_INDIRECT; let _ ← readBlock b.toNat; pure (b.toNat, n)) s₁
          (fun ptr s' => s'.Started ∧ s'.view.Reserves ∧ (s'.cache ptr.1).isSome ∧
            s'.view.field f F_SIZE = s.view.field f F_SIZE)
          (fun _ s' => s'.view.field f F_SIZE = s.view.field f F_SIZE) fun _ => True := by
      rintro s₁ _ hst hres hm₁ hsize rfl hlt hused
      rw [wp_bind, loadField, wp_loadWord hm₁, wp_bind]
      refine (wp_readBlock (E := fun _ _ => False) (P := fun _ => True) hst hlt hused trivial).mono
        ?_ (fun _ _ he => he.elim) fun _ _ => trivial
      rintro - s₂ ⟨hbec, hmap, -⟩
      have hview := hbec.view
      rw [wp_pure]
      exact ⟨hst.becomes hbec rfl, hview ▸ hres, hmap, hview ▸ hsize⟩
    rintro - s₁ (⟨hne, rfl⟩ | ⟨-, hempty, b, hb, hbec, -, -⟩)
    · obtain ⟨-, hlt, hused⟩ := h.own.range f .indirect hf Slot.ok_indirect hne
      exact hload s₁ _ h.started h.own.reserved hm rfl rfl hlt hused
    · have hx := h.own.extends_fill (z := s.page b) hb hf Slot.ok_indirect trivial hempty
      have hview := hbec.view
      have hfree := h.own.free_fill (z := s.page b) hb hf Slot.ok_indirect trivial hb.lt
      refine hload s₁ b (h.started.becomes hbec hx.nblocks) ?_ (hbec.mapped _ hm) ?_ ?_ ?_ ?_
      · rw [hview]
        intro c hc hc'
        rw [hx.nblocks] at hc
        rw [lastReserved_congr hx.nblocks]
        exact h.own.reserved c hc (hx.free c hc hc')
      · rw [hview]
        exact hx.field f F_SIZE hf (by decide)
      · rw [hview]
        exact h.own.num_fill hb hf Slot.ok_indirect trivial hempty
      · rw [hview, hx.nblocks]
        exact hb.lt
      · rw [hview, hfree]
        exact fun hc => hc.2 rfl
  · rintro e s₁ ⟨-, ⟨-, -, rfl⟩ | ⟨-, -, hbec, -⟩⟩
    · rfl
    · rw [hbec.view]

/-- **If there is no block, the size of the file is what it was**, whatever the pages hold. -/
lemma Server.Sound.wp_fileGetBlock_size (h : s.Sound O) (hf : s.view.Live O f)
    (hm : (s.cache f.block).isSome) :
    wp (fileGetBlock f n) s (fun _ _ => True)
      (fun _ s' => s'.view.field f F_SIZE = s.view.field f F_SIZE) fun _ => True := by
  have hload : ∀ (s' : Server) {x : FsM ℕ}, Exits (fun _ => False) x →
      wp x s' (fun b s'' => wp (do let _ ← readBlock b; pure b) s'' (fun _ _ => True)
        (fun _ s' => s'.view.field f F_SIZE = s.view.field f F_SIZE) fun _ => True)
        (fun _ s' => s'.view.field f F_SIZE = s.view.field f F_SIZE) fun _ => True := by
    intro s' x hx
    refine (hx.wp_true s').mono (fun b s'' _ => ?_) (fun _ _ he => he.elim) fun _ _ => trivial
    have hread : Exits (fun _ => False) (do let _ ← readBlock b; pure b) :=
      .bind (exits_readBlock b) fun _ => .pure _
    exact (hread.wp_true s'').mono (fun _ _ _ => trivial) (fun _ _ he => he.elim) fun _ _ => trivial
  rw [fileGetBlock, wp_bind, fileMapBlock, wp_bind]
  refine (h.wp_fileBlockWalk_size hf hm).mono ?_ (fun _ _ he => he) fun _ _ => trivial
  rintro ptr s₁ ⟨hst, hres, hmap, hsize⟩
  rw [wp_bind]
  refine (wp_fillSlot_exit hst hres hmap).mono (fun _ s₂ _ => ?_) (fun _ _ he => he ▸ hsize)
    fun _ _ => trivial
  exact hload s₂ (.bind (exits_loadWord _ _) fun _ => .pure _)

end

/-! ## What the directory gives -/

section

variable {O : Set FileRef} {s s₁ s' : Server} {v u : View} {sl : Slot}
    {d f g : FileRef} {b c i n : ℕ}

/-- The first free entry of the directory, in its blocks from `i` on, `n` of them. -/
def View.freeSlotFrom (v : View) (d : FileRef) : (i n : ℕ) → Option FileRef
  | _, 0 => none
  | i, n + 1 =>
      match freeEntry (v (v.num d (.of i))) 0 FILE2BLK with
      | some j => some (.entry (v.num d (.of i)) j)
      | none => v.freeSlotFrom d (i + 1) n

/-- The first free entry of the directory. -/
def View.freeSlot (v : View) (d : FileRef) : Option FileRef :=
  v.freeSlotFrom d 0 ((v.field d F_SIZE).toNat / BY2BLK)

lemma View.freeSlotFrom_some (h : v.freeSlotFrom d i n = some g) :
    ∃ k, i ≤ k ∧ k < i + n ∧ (∃ j < FILE2BLK, g = .entry (v.num d (.of k)) j) ∧ ¬ v.Named g := by
  induction n generalizing i with
  | zero => exact absurd h (by simp [freeSlotFrom])
  | succ n ih =>
      rw [freeSlotFrom] at h
      cases hfree : freeEntry (v (v.num d (.of i))) 0 FILE2BLK with
      | some j =>
          obtain ⟨-, hj, hbyte⟩ := freeEntry_some hfree
          rw [hfree] at h
          obtain rfl := Option.some.inj h
          refine ⟨i, le_rfl, by omega, ⟨j, by omega, rfl⟩, not_not.mpr ?_⟩
          rw [← hbyte]
          change (v (v.num d (.of i))).byte (4 * (64 * j)) = _
          congr 1
          omega
      | none =>
          rw [hfree] at h
          obtain ⟨k, hik, hk, hg⟩ := ih h
          exact ⟨k, by omega, by omega, hg⟩

lemma View.covers_of_freeSlot (h : v.freeSlot d = some g) : v.Covers d g ∧ ¬ v.Named g := by
  obtain ⟨k, -, hk, ⟨j, hj, hg⟩, hfree⟩ := freeSlotFrom_some h
  exact ⟨⟨k, by omega, j, hj, hg⟩, hfree⟩

/-- A walk leaves the free entries alone. -/
lemma View.SameTree.freeSlot {v' : View} (h : SameTree v v') (hd : v.Live ∅ d) (hdir : v.IsDir d)
    (hfill : v.Filled d) : v'.freeSlot d = v.freeSlot d := by
  have hfrom : ∀ n i, i + n = (v.field d F_SIZE).toNat / BY2BLK →
      v'.freeSlotFrom d i n = v.freeSlotFrom d i n := by
    intro n
    induction n with
    | zero => exact fun _ _ => rfl
    | succ n ih =>
        intro i hi
        obtain ⟨hlt, hne⟩ := hfill i (by omega)
        have hsl := Slot.data_of hlt
        have hfree : freeEntry (v' (v.num d (.of i))) 0 FILE2BLK =
            freeEntry (v (v.num d (.of i))) 0 FILE2BLK := by
          refine freeEntry_congr fun j _ hj => ?_
          have hname := h.name d _ j hd hdir hsl hne (by omega)
          have hiff : ¬ v'.Named (.entry (v.num d (.of i)) j) ↔
              ¬ v.Named (.entry (v.num d (.of i)) j) := by
            rw [← name_eq_nil, ← name_eq_nil, hname]
          rw [View.Named, View.Named, not_not, not_not, FileRef.entry,
            show 4 * (64 * j) = 256 * j by omega] at hiff
          exact hiff
        rw [freeSlotFrom, freeSlotFrom, h.num d _ hd hsl.ok, hfree, ih (i + 1) (by omega)]
  rw [View.freeSlot, View.freeSlot, h.field d F_SIZE hd le_rfl (by decide)]
  exact hfrom _ 0 (Nat.zero_add _)

/-- A new indirect block of the directory `d` would come with old contents. -/
def Server.RecyclesIndex (s : Server) (d : FileRef) : Prop :=
  s.view.freeSlot d = none ∧ (s.view.nextSlot d).Data ∧
    ∃ b, s.TakesIndirect d ((s.view.field d F_SIZE).toNat / BY2BLK) b ∧ s.page b ≠ Block.zero

/-- The next block of the directory has room for a new file: it is there already, or it is taken
with a page like that, and so that a new indirect block holds zeros. -/
structure Server.FreshNext (s : Server) (d : FileRef) : Prop where
  had : s.view.num d (s.view.nextSlot d) ≠ 0 →
    (s.view (s.view.num d (s.view.nextSlot d))).Fresh
  index : ∀ b, s.TakesIndirect d ((s.view.field d F_SIZE).toNat / BY2BLK) b → s.page b = Block.zero
  data : s.view.num d (s.view.nextSlot d) = 0 →
    ∀ b, s.TakesData d ((s.view.field d F_SIZE).toNat / BY2BLK) b → (s.page b).Fresh

/-- What a new file in the directory `d` gets is blank: its first free entry, or else the first one
of the next block. -/
def Server.BlankSlot (s : Server) (d : FileRef) : Prop :=
  match s.view.freeSlot d with
  | some g => s.view.Blank g
  | none => (s.view.nextSlot d).Data → s.FreshNext d

/-- The same files are there, and the pages of the free blocks are as they were. -/
lemma View.SameTree.sameRoom (h : SameTree s.view s'.view) (hk : s.Keeps s')
    (hd : s.view.Live ∅ d) : s.SameRoom s' d :=
  ⟨fun sl hsl => h.num d sl hd hsl, h.free, h.nblocks,
    fun b hb hfree => (hk b hb ((h.free b hb).mpr hfree)).2⟩

lemma View.FirstFree.unique (h : v.FirstFree b) (h' : v.FirstFree c) : b = c := by
  rcases lt_trichotomy b c with hlt | heq | hlt
  · exact absurd h.free (h'.first b h.ge hlt)
  · exact heq
  · exact absurd h'.free (h.first c h'.ge hlt)

/-- It is one block that is taken. -/
lemma Server.TakesData.unique (h : s.TakesData f n b) (h' : s.TakesData f n c) : b = c := by
  obtain ⟨hhas, -, hb⟩ | ⟨hnot, b₁, hb₁, hb⟩ := h
  · obtain ⟨-, -, hc⟩ | ⟨hnot, -⟩ := h'
    · exact hb.unique hc
    · exact absurd hhas hnot
  · obtain ⟨hhas, -⟩ | ⟨-, c₁, hc₁, hc⟩ := h'
    · exact absurd hhas hnot
    · obtain rfl := hb₁.unique hc₁
      exact hb.unique hc

/-- A block that is free is not the one that a file is in. -/
lemma View.Own.block_ne_free (h : v.Own O) (hf : v.Live O f) (hb : v.FirstFree b) :
    f.block ≠ b := by
  rintro rfl
  rcases h.meta_used (.type hf) with h1 | ⟨-, -, hused⟩
  · have := hb.ge
    omega
  · exact hused hb.free

/-! ## Finding a free entry (`dir_alloc_file`) -/

/-- The directory `d` has got block `b`. -/
structure Server.Grew (s : Server) (d : FileRef) (b : ℕ) (s' : Server) : Prop where
  mapped : (s'.cache b).isSome
  lt : (s.view.field d F_SIZE).toNat / BY2BLK < NINDIRECT
  num : s'.view.num d (s.view.nextSlot d) = b
  ne : b ≠ 0
  extends_ : Extends ∅ (s.view.grow d) s'.view
  names : s.view.SameNames s'.view
  /-- The directory is not in the block … -/
  block : d.block ≠ b
  indirect : s'.view.num d .indirect ≠ b
  /-- … which is none of those that it had. -/
  new : ∀ i < (s.view.field d F_SIZE).toNat / BY2BLK, s.view.num d (.of i) ≠ b
  sound : (s'.view b).Fresh → s'.Sound ∅
  fresh : (s'.view b).Fresh ↔ s.FreshNext d

lemma View.Own.agree_grow (h : v.Own ∅) (hd : v.Live ∅ d) : Agree ∅ v (v.grow d) :=
  h.agree_field hd (k := F_SIZE) (by decide) (by decide) _

/-- The block is there, behind the size. -/
lemma Server.Sound.grew_had (h : s.Sound ∅) (hd : s.view.Live ∅ d) (hfill : s.view.Filled d)
    (hn : (s.view.field d F_SIZE).toNat / BY2BLK < NINDIRECT)
    (hne : s.view.num d (s.view.nextSlot d) ≠ 0) (hs' : s'.Sound ∅)
    (hview : s'.view = s.view.grow d)
    (hmap : (s'.cache (s.view.num d (s.view.nextSlot d))).isSome) :
    s.Grew d (s.view.num d (s.view.nextSlot d)) s' := by
  have hsl : (s.view.nextSlot d).Data := Slot.data_of hn
  have hagree := h.own.agree_grow hd
  have hblock := h.own.block_ne_num hd hsl.ok hne
  have hpage : s'.view (s.view.num d (s.view.nextSlot d)) =
      s.view (s.view.num d (s.view.nextSlot d)) := by
    rw [hview]
    exact store_of_ne _ _ _ _ hblock.symm
  refine ⟨hmap, hn, ?_, hne, hview ▸ .refl, hview ▸ h.own.sameNames_grow hd, hblock, ?_,
    fun i hi heq => ?_, fun _ => hs', ?_⟩
  · rw [hview]
    exact hagree.num hd hsl.ok
  · rw [hview, hagree.num hd Slot.ok_indirect]
    exact fun heq => hsl.ne_indirect
      (h.own.inj d _ d .indirect hd hd hsl.ok Slot.ok_indirect hne heq.symm).2
  · have hinj := h.own.inj d _ d _ hd hd hsl.ok (Slot.data_of (hfill i hi).1).ok hne heq.symm
    have := Slot.of_inj hinj.2
    omega
  · rw [hpage]
    refine ⟨fun hfresh => ⟨fun _ => hfresh, fun b hb => ?_, fun h0 => absurd h0 hne⟩,
      fun hnext => hnext.had hne⟩
    exact absurd (hasSlot_of_num_ne_zero hne) hb.1

/-- The slot of the block is emptied no more: it holds a block with room for a new file. -/
lemma View.Own.linkable_fresh (h : u.Own ∅) (hb : u.FirstFree b) {z : Block} (hd : u.Live ∅ d)
    (hsl : sl.Data) (hhas : u.HasSlot d sl) (hempty : u.num d sl = 0) (hz : z.Fresh) :
    Linkable ∅ (u.take b z) d sl b := by
  rw [← View.take_self (v := u) (b := b) (z := z)] at hz
  obtain ⟨hblank, hnot⟩ := fresh_iff.mp hz
  refine { h.insertable_take hb hd hsl.ok hhas hempty with
    clean := fun hind => absurd hind hsl.ne_indirect
    idle := fun _ j hj hseen => ?_
    parent := fun _ _ hO => hO.elim }
  rcases Nat.eq_zero_or_pos j with rfl | hpos
  · exact ⟨hblank.not_isDir, hblank.num⟩
  · exact absurd (hseen.resolve_right id) (hnot j hj hpos.ne')

/-- The block is taken. -/
lemma Server.Sound.grew_new (h : s.Sound ∅) (hd : s.view.Live ∅ d) (hfill : s.view.Filled d)
    (hn : (s.view.field d F_SIZE).toNat / BY2BLK < NINDIRECT)
    (hempty : s.view.num d (s.view.nextSlot d) = 0)
    (hindex : ∀ b, s.TakesIndirect d ((s.view.field d F_SIZE).toNat / BY2BLK) b →
      s.page b = Block.zero)
    (htakes : s.TakesData d ((s.view.field d F_SIZE).toNat / BY2BLK) b) (h₁ : s₁.Sound ∅)
    (hview₁ : s₁.view = s.view.grow d)
    (hopens : s₁.view.Opens d ((s.view.field d F_SIZE).toNat / BY2BLK) u) (hb : u.FirstFree b)
    (hbec : s₁.Becomes (u.fill d (s.view.nextSlot d) b (s.page b)) s')
    (hmap : (s'.cache b).isSome) : s.Grew d b s' := by
  have hsl : (s.view.nextSlot d).Data := Slot.data_of hn
  have hagree := h.own.agree_grow hd
  have hlive : ∀ f, s.view.Live ∅ f → s₁.view.Live ∅ f := fun f hf => hview₁ ▸ hagree.live.mpr hf
  have hnum : ∀ f sl, s.view.Live ∅ f → sl.Ok → s₁.view.num f sl = s.view.num f sl :=
    fun f sl hf hsl => hview₁ ▸ hagree.num hf hsl
  have hu : u.Own ∅ := hopens.edits.own h₁.own
  have hdu : u.Live ∅ d := hopens.extends_.live d (hlive d hd)
  have hins := hu.insertable_take (z := s.page b) hb hdu hsl.ok hopens.hasSlot hopens.empty
  have hx := hu.extends_fill (z := s.page b) hb hdu hsl.ok hopens.hasSlot hopens.empty
  have hview := hbec.view
  have hpage : s'.view b = s.page b := by
    rw [hview]
    exact hins.page.trans View.take_self
  have hb0 : b ≠ 0 := by
    have := hb.ge
    omega
  refine ⟨hmap, hn, ?_, hb0, ?_, ?_, hu.block_ne_free hdu hb, ?_, fun i hi heq => ?_, ?_, ?_⟩
  · rw [hview]
    exact hu.num_fill hb hdu hsl.ok hopens.hasSlot hopens.empty
  · rw [← hview₁, hview]
    exact hopens.extends_.trans hx
  · have hnames₁ : s.view.SameNames s₁.view := hview₁ ▸ h.own.sameNames_grow hd
    have hnames := hnames₁.trans hopens.names hlive fun f sl hf hsl _ => hnum f sl hf hsl
    rw [hview]
    refine hnames.trans (hu.sameNames_fill hb hdu hsl.ok hopens.hasSlot)
      (fun f hf => hopens.extends_.live f (hlive f hf)) fun f sl hf hsl hne => ?_
    have heq := hnum f sl hf hsl
    exact (hopens.extends_.num f sl (hlive f hf) hsl (heq.trans_ne hne)).trans heq
  · -- the indirect block was in use
    have htake : (u.take b (s.page b)).Own ∅ := hu.shrink (hu.shrinks_take hb _)
    rw [hview, View.fill, htake.num_setSlot_of_ne hins.live hins.live hsl.ok Slot.ok_indirect
      hins.hasSlot (fun hc => hsl.ne_indirect hc.2) fun hc => hsl.ne_indirect hc.1]
    exact hins.fresh d .indirect hins.live Slot.ok_indirect
  · obtain ⟨hlt, hne⟩ := hfill i hi
    obtain ⟨-, -, hused⟩ := h.own.range d _ hd (Slot.data_of hlt).ok hne
    exact hused (heq ▸ (h.free_of_takesData hd htakes).2)
  · intro hfresh
    rw [hpage] at hfresh
    have hl := hu.linkable_fresh hb hdu hsl hopens.hasSlot hopens.empty hfresh
    exact h₁.runs (hbec.runs ((hopens.edits.tail (.take _ hb)).tail (.link hl)))
  · rw [hpage]
    refine ⟨fun hfresh => ⟨fun hne => absurd hempty hne, hindex, fun _ c hc => ?_⟩,
      fun hnext => hnext.data hempty b htakes⟩
    rwa [hc.unique htakes]

/-- **Without a free entry the directory grows**: its size does, also when there is no block for it.
-/
lemma Server.Sound.wp_dirAllocFrom_full (h : s.Sound ∅) (hm : (s.cache d.block).isSome)
    (hd : s.view.Live ∅ d) (hfill : s.view.Filled d) (hnone : s.view.freeSlot d = none) :
    wp (dirAllocFrom d ((s.view.field d F_SIZE).toNat / BY2BLK) 0) s
      (fun g s' => s.RecyclesIndex d ∨ ∃ b, g = .entry b 0 ∧ s.Grew d b s')
      (fun _ s' => s'.view.field d F_SIZE ≠ s.view.field d F_SIZE)
      fun p => p.Memory ∨ s.RecyclesIndex d := by
  rw [dirAllocFrom, wp_bind, loadField, wp_loadWord hm, wp_bind, storeField, wp_storeWord hm]
  have hbec : s.Becomes (s.view.grow d) (s.put d.block _) := becomes_store (i := d.word + F_SIZE) _
  have hkeeps := h.keeps_field hd F_SIZE (s.view.field d F_SIZE + BitVec.ofNat 32 BY2BLK)
  obtain ⟨he, hl⟩ := h.own.edits_size hd (s.view.field d F_SIZE + BitVec.ofNat 32 BY2BLK)
  have hagree := h.own.agree_grow hd
  change wp _ (s.put d.block (Function.update (s.view d.block) (d.word + F_SIZE)
    (s.view.field d F_SIZE + BitVec.ofNat 32 BY2BLK))) _ _ _
  generalize s.put d.block _ = s₁ at hbec hkeeps ⊢
  have hview := hbec.view
  have h₁ := h.runs (hbec.runs he)
  have hl₁ : s₁.view.Live ∅ d := hview ▸ hl
  have hm₁ := hbec.mapped _ hm
  have hfree : ∀ c < s.view.nblocks, s₁.view.Free c ↔ s.view.Free c := fun c hc => by
    rw [hview]
    exact free_store (h.own.plain_field hd F_SIZE) hc
  have hroom : s.SameRoom s₁ d :=
    ⟨fun sl hsl => hview ▸ hagree.num hd hsl, hfree, hview ▸ he.nblocks h.own,
      fun c hc hc' => (hkeeps c hc ((hfree c hc).mpr hc')).2⟩
  have hsize : s₁.view.field d F_SIZE ≠ s.view.field d F_SIZE := by
    intro heq
    have hgrow := hfill.size_grow
    rw [← View.field_grow_self, ← hview, heq] at hgrow
    omega
  have hexit : wp (fileGetBlock d ((s.view.field d F_SIZE).toNat / BY2BLK)) s₁ (fun _ _ => True)
      (fun _ s' => s'.view.field d F_SIZE ≠ s.view.field d F_SIZE) fun _ => True :=
    (h₁.wp_fileGetBlock_size hl₁ hm₁).mono (fun _ _ _ => trivial) (fun _ _ he => he ▸ hsize)
      fun _ _ => trivial
  rw [wp_bind]
  by_cases hrec : s.RecyclesIndex d
  · exact hexit.mono (fun _ _ _ => .inl hrec) (fun _ _ he => he) fun _ _ => .inr hrec
  by_cases hn : (s.view.field d F_SIZE).toNat / BY2BLK < NINDIRECT
  swap
  · -- the directory is as large as can be
    refine ((h₁.wp_fileGetBlock hl₁ hm₁
      ⟨fun hlt => absurd hlt hn, fun hlt => absurd hlt hn⟩).and hexit).mono ?_
      (fun _ _ he => he.2) fun _ hp => .inl hp.1
    exact fun _ _ hb => absurd hb.1.1 hn
  have hsl : (s.view.nextSlot d).Data := Slot.data_of hn
  have hnum₁ : s₁.view.num d (s.view.nextSlot d) = s.view.num d (s.view.nextSlot d) :=
    hroom.num _ hsl.ok
  by_cases hempty : s.view.num d (s.view.nextSlot d) = 0
  · have hindex : ∀ b, s.TakesIndirect d ((s.view.field d F_SIZE).toNat / BY2BLK) b →
        s.page b = Block.zero := fun b hb => by
      by_contra hne
      exact hrec ⟨hnone, hsl, b, hb, hne⟩
    have hindex₁ : ∀ b, s₁.TakesIndirect d ((s.view.field d F_SIZE).toNat / BY2BLK) b →
        s₁.page b = Block.zero := fun b hb => by
      rw [hroom.takesIndirect] at hb
      rw [hroom.page b hb.2.lt hb.2.free]
      exact hindex b hb
    refine ((h₁.wp_fileGetBlock_new hl₁ hm₁ hn (hnum₁.trans hempty) hindex₁).and hexit).mono ?_
      (fun _ _ he => he.2) fun _ hp => .inl hp.1
    rintro b s₂ ⟨⟨u, hopens, hb, htakes, hbec₂, hmap⟩, -⟩
    rw [hroom.takesData h.own h₁.own hd hl₁ hn] at htakes
    obtain ⟨hlt, hfree⟩ := h.free_of_takesData hd htakes
    rw [hroom.page b hlt hfree] at hbec₂
    rw [wp_pure]
    exact .inr ⟨b, rfl, h.grew_new hd hfill hn hempty hindex htakes h₁ hview hopens hb hbec₂ hmap⟩
  · refine ((h₁.wp_fileGetBlock_filled (E := fun _ _ => True) hl₁ hm₁ hn
      (hnum₁.trans_ne hempty)).and hexit).mono ?_ (fun _ _ he => he.2) fun _ hp => .inl hp.1
    rintro b s₂ ⟨⟨rfl, hbec₂, -, hmap⟩, -⟩
    have h₂ : s₂.Sound ∅ := h₁.runs hbec₂.runs_same
    change (s₂.cache (s₁.view.num d (s.view.nextSlot d))).isSome at hmap
    rw [hnum₁] at hmap
    rw [wp_pure]
    refine .inr ⟨_, rfl, ?_⟩
    change s.Grew d (s₁.view.num d (s.view.nextSlot d)) s₂
    rw [hnum₁]
    exact h.grew_had hd hfill hn hempty h₂ (hbec₂.view.trans hview) hmap

/-- An open file is not what makes a server sound. -/
lemma Server.Sound.named (h : s.Sound O) : s.Sound ∅ :=
  ⟨h.started, h.own.named, ⟨h.parents.root, fun _ hf => hf.elim⟩, fun _ hf => hf.elim⟩

/-! ### A server with the same tree -/

section

variable (h : SameTree s.view s'.view) (hk : s.Keeps s') (hs : s.Sound ∅) (hs' : s'.Sound ∅)
variable (hd : s.view.Live ∅ d) (hdir : s.view.IsDir d)
include h hd

lemma View.SameTree.nextSlot : s'.view.nextSlot d = s.view.nextSlot d := by
  rw [View.nextSlot, View.nextSlot, h.field d F_SIZE hd le_rfl (by decide)]

include hdir in
lemma View.SameTree.fresh (hsl : sl.Data) (hne : s.view.num d sl ≠ 0) :
    (s'.view (s.view.num d sl)).Fresh ↔ (s.view (s.view.num d sl)).Fresh := by
  rw [fresh_iff, fresh_iff]
  refine and_congr
    (blank_congr fun k hk hk' => h.slot d _ _ k hd hdir hsl hne (by decide) hk hk') ?_
  refine forall₃_congr fun j hj _ => not_congr ?_
  rw [← not_iff_not, ← name_eq_nil, ← name_eq_nil, h.name d _ j hd hdir hsl hne hj]

include hk

include hs hs' hdir in
lemma View.SameTree.freshNext (hsl : (s.view.nextSlot d).Data) :
    s'.FreshNext d ↔ s.FreshNext d := by
  have hroom := h.sameRoom hk hd
  have hsize := h.field d F_SIZE hd le_rfl (by decide)
  have hnum := hroom.num _ hsl.ok
  have hlt := Slot.lt_of_data hsl
  have hd' : s'.view.Live ∅ d := (h.live d).mpr hd
  have htakes : ∀ b, s'.TakesData d ((s.view.field d F_SIZE).toNat / BY2BLK) b ↔
      s.TakesData d ((s.view.field d F_SIZE).toNat / BY2BLK) b := fun b =>
    hroom.takesData hs.own hs'.own hd hd' hlt
  constructor
  · rintro ⟨hhad, hindex, hdata⟩
    rw [h.nextSlot hd, hnum] at hhad hdata
    rw [hsize] at hindex hdata
    refine ⟨fun hne => (h.fresh hd hdir hsl hne).mp (hhad hne), fun b hb => ?_, fun h0 b hb => ?_⟩
    · rw [← hroom.page b hb.2.lt hb.2.free]
      exact hindex b (hroom.takesIndirect.mpr hb)
    · obtain ⟨hlt, hfree⟩ := hs.free_of_takesData hd hb
      rw [← hroom.page b hlt hfree]
      exact hdata h0 b ((htakes b).mpr hb)
  · rintro ⟨hhad, hindex, hdata⟩
    refine ⟨?_, fun b hb => ?_, ?_⟩
    · rw [h.nextSlot hd, hnum]
      exact fun hne => (h.fresh hd hdir hsl hne).mpr (hhad hne)
    · rw [hsize, hroom.takesIndirect] at hb
      rw [hroom.page b hb.2.lt hb.2.free]
      exact hindex b hb
    · rw [h.nextSlot hd, hnum, hsize]
      intro h0 b hb
      rw [htakes] at hb
      obtain ⟨hlt, hfree⟩ := hs.free_of_takesData hd hb
      rw [hroom.page b hlt hfree]
      exact hdata h0 b hb

include hdir

lemma View.SameTree.recyclesIndex (hfill : s.view.Filled d) :
    s'.RecyclesIndex d ↔ s.RecyclesIndex d := by
  have hroom := h.sameRoom hk hd
  rw [Server.RecyclesIndex, Server.RecyclesIndex, h.freeSlot hd hdir hfill, h.nextSlot hd,
    h.field d F_SIZE hd le_rfl (by decide)]
  refine and_congr_right fun _ => and_congr_right fun _ => exists_congr fun b => ?_
  rw [hroom.takesIndirect]
  refine and_congr_right fun hb => ?_
  rw [hroom.page b hb.2.lt hb.2.free]

include hs hs' in
lemma View.SameTree.blankSlot (hfill : s.view.Filled d) : s'.BlankSlot d ↔ s.BlankSlot d := by
  rw [Server.BlankSlot, Server.BlankSlot, h.freeSlot hd hdir hfill]
  cases hfree : s.view.freeSlot d with
  | some g =>
      obtain ⟨i, hi, j, hj, rfl⟩ := (covers_of_freeSlot hfree).1
      obtain ⟨hlt, hne⟩ := hfill i hi
      exact blank_congr fun k hk hk' => h.slot d _ _ k hd hdir (Slot.data_of hlt) hne hj hk hk'
  | none =>
      change (_ → _) ↔ (_ → _)
      rw [h.nextSlot hd]
      exact forall_congr' fun hsl => h.freshNext hk hs hs' hd hdir hsl

end

/-- What `dir_alloc_file` finds. -/
inductive Server.Allots (s : Server) (d g : FileRef) (s' : Server) : Prop
  | free (h : s.view.freeSlot d = some g) (hview : s'.view = s.view) (hs : s'.Sound ∅)
      (hm : (s'.cache g.block).isSome)
  | grew {b : ℕ} (h : s.view.freeSlot d = none) (hg : g = .entry b 0) (hgrew : s.Grew d b s')
  | recycled (h : s.RecyclesIndex d)

/-- The same server as far as the directory is concerned. -/
lemma Server.Grew.congr (hgrew : s₁.Grew d b s') (hview : s₁.view = s.view)
    (hnext : (s.view.nextSlot d).Data → (s₁.FreshNext d ↔ s.FreshNext d)) : s.Grew d b s' := by
  obtain ⟨hmap, hlt, hnum, hne, hx, hnames, hblock, hind, hnew, hsound, hfresh⟩ := hgrew
  rw [hview] at hlt hnum hx hnames hnew
  exact ⟨hmap, hlt, hnum, hne, hx, hnames, hblock, hind, hnew, hsound,
    hfresh.trans (hnext (Slot.data_of hlt))⟩

/-- **The loop of `dir_alloc_file`.** -/
lemma Server.Sound.wp_dirAllocFrom (h : s.Sound ∅) (h₁ : s₁.Sound ∅) (hview : s₁.view = s.view)
    (hk : s.Keeps s₁) (hm : (s₁.cache d.block).isSome) (hd : s.view.Live ∅ d)
    (hdir : s.view.IsDir d) (hfill : s.view.Filled d)
    (hle : i + n = (s.view.field d F_SIZE).toNat / BY2BLK)
    (hskip : s.view.freeSlotFrom d i n = s.view.freeSlot d) :
    wp (dirAllocFrom d i n) s₁ (fun g s' => s.Allots d g s')
      (fun _ s' => s.view.freeSlot d = none ∧ s'.view.field d F_SIZE ≠ s.view.field d F_SIZE)
      fun p => p.Memory ∨ s.RecyclesIndex d := by
  have hsame : SameTree s.view s₁.view := by
    rw [hview]
    exact .refl
  induction n generalizing i s₁ with
  | zero =>
      have hnone : s.view.freeSlot d = none := hskip.symm
      have hfull := h₁.wp_dirAllocFrom_full hm (hview ▸ hd) (hview ▸ hfill) (hview ▸ hnone)
      rw [hview, hsame.recyclesIndex hk hd hdir hfill] at hfull
      obtain rfl : i = (s.view.field d F_SIZE).toNat / BY2BLK := hle
      refine hfull.mono ?_ (fun _ _ he => ⟨hnone, he⟩) fun _ hp => hp
      rintro g s' (hrec | ⟨b, hg, hgrew⟩)
      · exact .recycled hrec
      · exact .grew hnone hg
          (hgrew.congr hview fun hsl => hsame.freshNext hk h h₁ hd hdir hsl)
  | succ n ih =>
      obtain ⟨hlt, hne⟩ := hfill i (by omega)
      rw [dirAllocFrom, wp_bind]
      refine (h₁.wp_fileGetBlock_filled (E := fun _ _ => False) (hview ▸ hd) hm hlt
        (hview ▸ hne)).mono ?_ (fun _ _ he => he.elim) fun _ hp => .inl hp
      rintro b s₂ ⟨rfl, hbec, hk₂, hmap⟩
      have hview₂ : s₂.view = s.view := hbec.view.trans hview
      have h₂ : s₂.Sound ∅ := h₁.runs hbec.runs_same
      rw [freeSlotFrom] at hskip
      rw [hview] at hmap
      rw [wp_bind, hview, wp_loadBlock hmap, hview₂]
      cases hfree : freeEntry (s.view (s.view.num d (.of i))) 0 FILE2BLK with
      | some j =>
          rw [hfree] at hskip
          exact .free hskip.symm hview₂ h₂ hmap
      | none =>
          rw [hfree] at hskip
          have hsame₂ : SameTree s.view s₂.view := by
            rw [hview₂]
            exact .refl
          exact ih h₂ hview₂ (hk.trans hk₂ (by rw [hview])) (hbec.mapped _ hm) (by omega) hskip
            hsame₂

end

/-! ## What `file_create` does -/

/-- **What creating a file at a path is to do**; `v` is the view before, `g` the file that is
returned and `s'` the server afterwards. -/
structure Server.Created (v : View) (path : List Byte) (g : FileRef) (s' : Server) : Prop where
  found : ∀ w s'', walkPath path s' = .ok w s'' → w.err = none ∧ w.file = some g
  empty : s'.view.Blank g
  others : ∀ cs f, s'.view.Leads .root cs f ↔ v.Leads .root cs f ∨ cs = pieces path ∧ f = g

/-- What is wrong with a path at which no file is created. -/
inductive View.Cause (v : View) (cs : List (List Byte)) : FsErr → Prop
  | fileExists {f : FileRef} (hf : v.Leads .root cs f) : v.Cause cs .fileExists
  | badPath {pre post : List (List Byte)} {c : List Byte} (hfail : v.FailsAt cs pre c post)
      (hlong : MAXNAMELEN ≤ c.length) : v.Cause cs .badPath
  | notFound {pre post : List (List Byte)} {c : List Byte} (hfail : v.FailsAt cs pre c post)
      (hshort : c.length < MAXNAMELEN) (hno : ∀ d c, ¬ v.Lacks cs d c) : v.Cause cs .notFound
  /-- There is no block for the directory. -/
  | noBlock {e : FsErr} {d : FileRef} {c : List Byte} (hl : v.Lacks cs d c)
      (hfull : v.freeSlot d = none) (he : e = .noDisk ∨ e = .noMem ∨ e = .inval) : v.Cause cs e

/-- **What an error is to mean**: it names the cause, and nothing has changed. -/
structure Server.Refused (v : View) (path : List Byte) (e : FsErr) (s' : Server) : Prop where
  cause : v.Cause (pieces path) e
  same : SameTree v s'.view

section

variable {O : Set FileRef} {s s' : Server} {v v' : View} {d f g : FileRef} {sl : Slot} {j : ℕ}
variable {c : List Byte} {cs pre : List (List Byte)} {path : List Byte}

/-- What is done when a file gets its name. -/
lemma Server.Sound.created {s₁ : Server} (h : s₁.Sound O) (hv : v.Own ∅) (ht : v.IsTree)
    (hr : v.Room s₁.view d g) (hn : Nameable ∅ s₁.view d g c) (hd : v.Leads .root pre d)
    (hcs : pieces path = pre ++ [c]) (hno : ∀ f, ¬ v.Holds d c f) (hstr : IsString path)
    (hbec : s₁.Becomes (s₁.view.putName g c) s') : Created v path g s' := by
  have hown := h.own.named
  have hnO : Nameable O s₁.view d g c := { hn with live := hn.live.mono (Set.empty_subset O) }
  have hview := hbec.view
  have hs' : s'.Sound O :=
    ⟨h.started.becomes hbec (hnO.nblocks h.own), hview ▸ hnO.own h.own,
      hview ▸ hnO.parents h.own h.parents, fun f hf => hbec.mapped _ (h.opened f hf)⟩
  have ht' : s'.view.IsTree := hview ▸ hr.isTree hn hown hv ht hd hno
  have hleads : ∀ cs f, s'.view.Leads .root cs f ↔ v.Leads .root cs f ∨
      cs = pieces path ∧ f = g := by
    intro cs f
    rw [hview, hcs]
    exact hr.leads hn hown hv ht hd
  refine ⟨fun w s'' hwalk => ?_, hview ▸ hn.blank_self, hleads⟩
  obtain ⟨hres, -⟩ := (hs'.wp_walkPath_tree (E := fun _ _ => True) ht' hstr).of_ok hwalk
  have hg : s'.view.Leads .root (pieces path) g := (hleads _ g).mpr (.inr ⟨rfl, rfl⟩)
  exact ⟨hres.found.mpr ⟨g, hg⟩, (hres.file g).mpr hg⟩

/-- A new file is blank only if its entry was. -/
lemma Server.Created.blank {v₁ : View} (h : Created v path g s') (hlen : c.length < MAXNAMELEN)
    (hview : s'.view = v₁.putName g c) : v₁.Blank g := by
  have hempty := h.empty
  rw [hview] at hempty
  exact (blank_congr fun _ hk _ =>
    putName_of_outside hlen fun _ => .inr (Nat.add_le_add_left hk _)).mp hempty

/-- The last name is not empty, and it is a string. -/
lemma View.Lacks.name (h : v.Lacks (pieces path) d c) (hstr : IsString path) :
    c ≠ [] ∧ IsString c := by
  obtain ⟨pre, hcs, -⟩ := h.leads
  exact mem_pieces hstr (hcs ▸ List.mem_append_right pre (List.mem_singleton_self c))

/-- **A new file in a free entry.** -/
lemma Server.Sound.created_free (h : s.Sound O) (ht : s.view.IsTree) (hstr : IsString path)
    (hl : s.view.Lacks (pieces path) d c) {s₁ : Server} (h₁ : s₁.Sound O) (hview : s₁.view = s.view)
    (hfree : s.view.freeSlot d = some g) (hbec : s₁.Becomes (s₁.view.putName g c) s') :
    Created s.view path g s' ↔ s.BlankSlot d := by
  obtain ⟨pre, hcs, hd⟩ := hl.leads
  obtain ⟨hne, hname⟩ := hl.name hstr
  have hlive : s.view.Live ∅ d := ht.live hd
  have hfill := ht.filled pre d hd hl.isDir
  obtain ⟨hcov, hnot⟩ := covers_of_freeSlot hfree
  have hplace : ∃ (sl : Slot) (j : ℕ), sl.Data ∧ s.view.num d sl ≠ 0 ∧ j < FILE2BLK ∧
      g = .entry (s.view.num d sl) j := by
    obtain ⟨i, hi, j, hj, hg⟩ := hcov
    obtain ⟨hlt, hne⟩ := hfill i hi
    exact ⟨.of i, j, Slot.data_of hlt, hne, hj, hg⟩
  rw [Server.BlankSlot, hfree]
  constructor
  · exact fun hc => hview ▸ hc.blank hl.short hbec.view
  · intro hblank
    have hn : Nameable ∅ s.view d g c :=
      ⟨hlive, hl.isDir, hplace, hblank, hne, hname, hl.short⟩
    rw [← hview] at hn
    exact h₁.created h.own.named ht (hview ▸ hcov.room hnot) hn hd hcs hl.missing hstr hbec

/-- A name in a block that the directory is not in leaves its fields and slots alone. -/
lemma field_putName (hb : f.block ≠ g.block) {k : ℕ} : (v.putName g c).field f k = v.field f k := by
  rw [View.field, putName_of_ne hb, View.field]

lemma num_putName (hb : f.block ≠ g.block) (hind : v.num f .indirect ≠ g.block) :
    (v.putName g c).num f sl = v.num f sl := by
  cases sl with
  | direct i => rw [View.num, View.num, field_putName hb]
  | indirect => rw [View.num, View.num, field_putName hb]
  | index i =>
      rw [View.num, View.num, field_putName hb]
      split_ifs with h0
      · rfl
      · exact congrArg BitVec.toNat (congrFun (putName_of_ne hind) i)

/-- **A new file in a block that the directory has got.** -/
lemma Server.Sound.created_grew (h : s.Sound ∅) (ht : s.view.IsTree) (hstr : IsString path)
    (hl : s.view.Lacks (pieces path) d c) {s₁ : Server} {b : ℕ} (h₁ : s.Grew d b s₁)
    (hbec : s₁.Becomes (s₁.view.putName (.entry b 0) c) s') :
    Created s.view path (.entry b 0) s' ↔ (s₁.view b).Fresh := by
  obtain ⟨pre, hcs, hd⟩ := hl.leads
  obtain ⟨hne, hname⟩ := hl.name hstr
  have hlive : s.view.Live ∅ d := ht.live hd
  have hfill := ht.filled pre d hd hl.isDir
  have hsl : (s.view.nextSlot d).Data := Slot.data_of h₁.lt
  have hagree := h.own.agree_grow hlive
  have hliveg : (s.view.grow d).Live ∅ d := hagree.live.mpr hlive
  have hdir₁ : s₁.view.IsDir d :=
    (h₁.extends_.isDir hliveg).mpr ((hagree.isDir hlive).mpr hl.isDir)
  constructor
  · intro hc
    refine fresh_iff.mpr ⟨hc.blank hl.short hbec.view, fun j hj hj0 hnamed => ?_⟩
    -- another entry with a name would come to be seen
    have hneg : FileRef.entry b j ≠ .entry b 0 := by
      intro heq
      have hword : 64 * j = 64 * 0 := congrArg FileRef.word heq
      omega
    have hhold : s'.view.Holds d (s₁.view.name (.entry b j)) (.entry b j) := by
      rw [hbec.view]
      refine ⟨(s.view.field d F_SIZE).toNat / BY2BLK, ?_, j, hj, ?_,
        name_putName_of_ne hl.short hneg⟩
      · rw [field_putName h₁.block, h₁.extends_.field d F_SIZE hliveg (by decide), field_grow_self,
          hfill.size_grow]
        exact Nat.lt_succ_self _
      · rw [num_putName h₁.block h₁.indirect]
        exact congrArg (FileRef.entry · j) h₁.num.symm
    have hdir' : s'.view.IsDir d := by
      rwa [hbec.view, View.IsDir, field_putName h₁.block]
    have hlead := View.leads_concat.mpr
      ⟨d, (hc.others pre d).mpr (.inl hd), hdir', fun hnil => name_eq_nil.mp hnil hnamed, hhold⟩
    obtain hold | ⟨-, heq⟩ := (hc.others _ _).mp hlead
    · obtain ⟨d', hd', -, -, i, hi, j', -, heq, -⟩ := View.leads_concat.mp hold
      obtain rfl := ht.leads_unique hd hd'
      exact h₁.new i hi (congrArg FileRef.block heq).symm
    · exact hneg heq
  · intro hfresh
    have hs₁ := h₁.sound hfresh
    obtain ⟨hblank, hfree⟩ := fresh_iff.mp hfresh
    have hnum := h₁.num
    have hr := h.own.room_grown hs₁.own hlive hl.isDir hfill h₁.extends_ h₁.names h₁.lt
      (hnum.trans_ne h₁.ne) (hnum ▸ hfree)
    rw [hnum] at hr
    have hn : Nameable ∅ s₁.view d (.entry b 0) c :=
      ⟨h₁.extends_.live d hliveg, hdir₁,
        ⟨_, 0, hsl, hnum.trans_ne h₁.ne, by decide, congrArg (FileRef.entry · 0) hnum.symm⟩,
        hblank, hne, hname, hl.short⟩
    exact hs₁.created h.own ht hr hn hd hcs hl.missing hstr hbec

/-- **`file_create` in the directory where the name is missing.** -/
lemma Server.Sound.wp_createIn (h : s.Sound ∅) (ht : s.view.IsTree) (hstr : IsString path)
    (hm : (s.cache d.block).isSome) (hl : s.view.Lacks (pieces path) d c) :
    wp (createIn d c) s
      (fun g s' => (Created s.view path g s' ↔ s.BlankSlot d) ∨ s.RecyclesIndex d)
      (fun _ s' => s.view.freeSlot d = none ∧ s'.view.field d F_SIZE ≠ s.view.field d F_SIZE)
      fun p => p.Memory ∨ s.RecyclesIndex d := by
  obtain ⟨pre, hcs, hd⟩ := hl.leads
  have hfill := ht.filled pre d hd hl.isDir
  rw [createIn, wp_bind, wp_attempt, dirAllocFile, wp_bind, loadField, wp_loadWord hm]
  refine (h.wp_dirAllocFrom h rfl .refl hm (ht.live hd) hl.isDir hfill (Nat.zero_add _) rfl).mono ?_
    (fun _ _ he => he) fun _ hp => hp
  rintro g s₁ hallot
  -- what the name is stored into
  have hstore : (s₁.cache g.block).isSome →
      (∀ s', s₁.Becomes (s₁.view.putName g c) s' → (Created s.view path g s' ↔ s.BlankSlot d)) →
      wp (do storeBlock g.block ((← loadBlock g.block).strcpy (4 * g.word) c); pure g) s₁
        (fun g s' => (Created s.view path g s' ↔ s.BlankSlot d) ∨ s.RecyclesIndex d)
        (fun _ s' => s.view.freeSlot d = none ∧ s'.view.field d F_SIZE ≠ s.view.field d F_SIZE)
        fun p => p.Memory ∨ s.RecyclesIndex d := by
    intro hm₁ hiff
    rw [wp_bind, wp_loadBlock hm₁, wp_bind, wp_storeBlock hm₁, wp_pure]
    exact .inl (hiff _ (becomes_put _))
  cases hallot with
  | free hfree hview h₁ hm₁ =>
      exact hstore hm₁ fun s' hbec => h.created_free ht hstr hl h₁ hview hfree hbec
  | @grew b hnone hg hgrew =>
      subst hg
      refine hstore hgrew.mapped fun s' hbec => ?_
      rw [h.created_grew ht hstr hl hgrew hbec, hgrew.fresh, Server.BlankSlot, hnone]
      exact ⟨fun hnext _ => hnext, fun hnext => hnext (Slot.data_of hgrew.lt)⟩
  | recycled hrec =>
      have hexits : Exits (fun _ => False)
          (do storeBlock g.block ((← loadBlock g.block).strcpy (4 * g.word) c); pure g) :=
        .bind (exits_loadBlock _) fun _ => .bind (exits_storeBlock _ _) fun _ => .pure _
      exact (hexits.wp_true s₁).mono (fun _ _ _ => .inr hrec) (fun _ _ he => he.elim)
        fun _ _ => .inr hrec

/-! ### What the walk leaves as it is -/

lemma View.SameTree.created (h : SameTree v v') (ht : v.IsTree) :
    Server.Created v' path g s' ↔ Server.Created v path g s' := by
  constructor
  · rintro ⟨hfound, hempty, hothers⟩
    exact ⟨hfound, hempty, fun cs f => (hothers cs f).trans (or_congr_left (h.leads ht))⟩
  · rintro ⟨hfound, hempty, hothers⟩
    exact ⟨hfound, hempty, fun cs f => (hothers cs f).trans (or_congr_left (h.leads ht).symm)⟩

lemma View.SameTree.lacks (h : SameTree v v') (ht : v.IsTree) (hl : v.Lacks cs d c) :
    v'.Lacks cs d c := by
  obtain ⟨pre, hcs, hd⟩ := hl.leads
  have hlive : v.Live ∅ d := ht.live hd
  have hfill := ht.filled pre d hd hl.isDir
  exact ⟨⟨pre, hcs, (h.leads ht).mpr hd⟩, (h.isDir hlive).mpr hl.isDir, hl.short,
    fun g hg => hl.missing g ((h.holds hlive hl.isDir hfill).mp hg)⟩

lemma View.Lacks.unique (h : v.Lacks cs d c) (ht : v.IsTree) {d' : FileRef} {c' : List Byte}
    (h' : v.Lacks cs d' c') : d = d' := by
  obtain ⟨pre, hcs, hd⟩ := h.leads
  obtain ⟨pre', hcs', hd'⟩ := h'.leads
  obtain ⟨rfl, -⟩ := List.append_inj' (hcs.symm.trans hcs') rfl
  exact ht.leads_unique hd hd'

/-- A name is missing: the names lead nowhere. -/
lemma View.Lacks.failsAt (h : v.Lacks cs d c) (ht : v.IsTree) :
    ∃ pre, v.FailsAt cs pre c [] ∧ v.Leads .root pre d := by
  obtain ⟨pre, hcs, hd⟩ := h.leads
  refine ⟨pre, ⟨hcs, ⟨d, hd⟩, fun g hg => ?_⟩, hd⟩
  obtain ⟨d', hd', -, -, hg⟩ := View.leads_concat.mp hg
  exact h.missing g (ht.leads_unique hd hd' ▸ hg)

/-- If names lead nowhere, there is a first one that does not lead on. -/
lemma View.exists_failsAt (h : ∀ f, ¬ v.Leads .root cs f) :
    ∃ pre c post, v.FailsAt cs pre c post := by
  induction cs using List.reverseRecOn with
  | nil => exact absurd (.nil .root) (h .root)
  | append_singleton cs c ih =>
      by_cases hlead : ∃ d, v.Leads .root cs d
      · exact ⟨cs, c, [], rfl, hlead, h⟩
      · obtain ⟨pre, c', post, hcs, hd, hno⟩ := ih (not_exists.mp hlead)
        exact ⟨pre, c', post ++ [c], by rw [hcs, List.append_assoc, List.cons_append], hd, hno⟩

/-- A walk that fails where no name is missing in a directory gives the cause. -/
lemma View.Resolves.cause {w : Walk} {e : FsErr} (h : v.Resolves cs w) (he : w.err = some e)
    (hno : ∀ d c, ¬ v.Lacks cs d c) : v.Cause cs e := by
  have hnot : ∀ f, ¬ v.Leads .root cs f := fun f hf => nomatch he.symm.trans (h.found.mpr ⟨f, hf⟩)
  obtain ⟨pre, c, post, hfail⟩ := exists_failsAt hnot
  rcases Nat.lt_or_ge c.length MAXNAMELEN with hshort | hlong
  · obtain rfl := Option.some.inj (he.symm.trans (h.notFound.mpr ⟨pre, c, post, hfail, hshort⟩))
    exact .notFound hfail hshort hno
  · obtain rfl := Option.some.inj (he.symm.trans (h.badPath.mpr ⟨pre, c, post, hfail, hlong⟩))
    exact .badPath hfail hlong

/-- What `file_create` does; it may panic for want of memory. -/
lemma Server.Sound.wp_fileCreate (h : s.Sound O) (ht : s.view.IsTree) (hstr : IsString path) :
    wp (fileCreate path) s
      (fun g s' => (Created s.view path g s' ↔
          ∀ d c, s.view.Lacks (pieces path) d c → s.BlankSlot d) ∨
        ∃ d c, s.view.Lacks (pieces path) d c ∧ s.RecyclesIndex d)
      (fun e s' => Refused s.view path e s' ↔
        ∀ d c, s.view.Lacks (pieces path) d c → s.view.freeSlot d ≠ none)
      (fun p => p.Memory ∨ ∃ d c, s.view.Lacks (pieces path) d c ∧ s.RecyclesIndex d) := by
  rw [fileCreate, wp_bind]
  refine (h.wp_walkPath_keeps (E := fun _ _ => False) ht hstr).mono ?_ (fun _ _ he => he.elim)
    fun _ hp => .inl hp
  rintro ⟨err, dir, file, elem⟩ s₁ ⟨hres, hk, hsame, O', h₁, -, hdir⟩
  cases err with
  | none =>
      obtain ⟨f, hf⟩ := hres.found.mp rfl
      refine iff_of_true ⟨.fileExists hf, hsame⟩ fun d c hl => ?_
      obtain ⟨pre, hfail, -⟩ := hl.failsAt ht
      exact absurd hf hfail.not_leads
  | some e =>
      by_cases hmiss : ∃ d c, s.view.Lacks (pieces path) d c
      · obtain ⟨d, c, hl⟩ := hmiss
        obtain ⟨pre, hfail, hd⟩ := hl.failsAt ht
        obtain ⟨rfl, rfl⟩ := hres.missing pre c d hfail hl.short hd hl.isDir
        obtain rfl : e = .notFound :=
          Option.some.inj (hres.notFound.mpr ⟨pre, c, [], hfail, hl.short⟩)
        have hlive : s.view.Live ∅ d := ht.live hd
        have hfill := ht.filled pre d hd hl.isDir
        have hslot := hsame.freeSlot hlive hl.isDir hfill
        have hblank := hsame.blankSlot hk h.named h₁.named hlive hl.isDir hfill
        have hrec := hsame.recyclesIndex hk hlive hl.isDir hfill
        have honly : ∀ {P : FileRef → Prop},
            (∀ d c, s.view.Lacks (pieces path) d c → P d) ↔ P d :=
          ⟨fun hall => hall d c hl, fun hp d' c' hl' => hl.unique ht hl' ▸ hp⟩
        rw [honly, honly]
        refine (h₁.named.wp_createIn (hsame.isTree ht) hstr (h₁.mapped (hdir d nofun rfl).1)
          (hsame.lacks ht hl)).mono ?_ ?_ fun _ hp => hp.imp_right fun hr => ⟨d, c, hl, hrec.mp hr⟩
        · rintro g s' (hiff | hr)
          · rw [hsame.created ht, hblank] at hiff
            exact .inl hiff
          · exact .inr ⟨d, c, hl, hrec.mp hr⟩
        · rintro e s' ⟨hnone, hsize⟩
          refine iff_of_false (fun hr => hsize ?_) fun hfree => hfree (hslot ▸ hnone)
          rw [hr.same.field d F_SIZE hlive le_rfl (by decide),
            hsame.field d F_SIZE hlive le_rfl (by decide)]
      · have hno : ∀ d c, ¬ s.view.Lacks (pieces path) d c := fun d c hl => hmiss ⟨d, c, hl⟩
        have hnone : dir = none := Option.eq_none_iff_forall_not_mem.mpr fun d hd =>
          hmiss ⟨d, (hdir d nofun hd).2⟩
        obtain rfl := hnone
        have hrefused : Refused s.view path e s₁ ↔
            ∀ d c, s.view.Lacks (pieces path) d c → s.view.freeSlot d ≠ none :=
          iff_of_true ⟨hres.cause rfl hno, hsame⟩ fun d c hl => absurd hl (hno d c)
        -- without a directory every error of the walk is passed on
        cases e <;> exact hrefused

/-- **`file_create` does what it is to do if and only if** what the new file gets is blank; and an
error is what it is to be if and only if the directory has a free entry, or there is no directory.
With old contents in a new indirect block of the directory anything may happen. -/
theorem file_create_iff (h : s.Sound O) (ht : s.view.IsTree) (hstr : IsString path) :
    wp (fileCreate path) s
      (fun g s' => (Server.Created s.view path g s' ↔
          ∀ d c, s.view.Lacks (pieces path) d c → s.BlankSlot d) ∨
        ∃ d c, s.view.Lacks (pieces path) d c ∧ s.RecyclesIndex d)
      (fun e s' => Server.Refused s.view path e s' ↔
        ∀ d c, s.view.Lacks (pieces path) d c → s.view.freeSlot d ≠ none)
      (fun p => s.OutOfMemory p ∨ ∃ d c, s.view.Lacks (pieces path) d c ∧ s.RecyclesIndex d) := by
  have hrun := h.wp_fileCreate ht hstr
  by_cases hrec : ∃ d c, s.view.Lacks (pieces path) d c ∧ s.RecyclesIndex d
  · exact hrun.mono (fun _ _ h => h) (fun _ _ h => h) fun _ _ => .inr hrec
  · refine ((answered_fileCreate path).outOfMemory (hrun.mono (fun _ _ h => h) (fun _ _ h => h)
      fun _ hp => hp.resolve_right hrec)).mono (fun _ _ h => h) (fun _ _ h => h)
      fun _ hp => .inl hp

/-- After a file has been removed, the tree is well formed. -/
lemma Server.Sound.wp_fileRemove_tree (h : s.Sound O) (ht : s.view.IsTree) (hstr : IsString path)
    (hroot : pieces path ≠ []) :
    wp (fileRemove path) s (fun _ s' => (∃ O', s'.Sound O') ∧ s'.view.IsTree) (fun _ _ => True)
      Panic.Memory := by
  refine (h.wp_fileRemove_found ht hstr).mono ?_ (fun _ _ _ => trivial) fun _ hp => hp
  rintro _ s' ⟨f, s₁, O', hsame, h₁, hO, hf₁, hbec⟩
  have ht₁ := hsame.isTree ht
  refine ⟨⟨O', h₁.runs (hbec.runs (h₁.own.edits_remove (ht₁.live hf₁) hO).1)⟩, ?_⟩
  rw [hbec.view]
  exact ht₁.remove h₁.own.named hf₁ hroot

end

/-! ## A file in the place of a directory -/

/-- **The new file is a directory**: the directory "d" is removed, and a file "d" is created. -/
theorem file_create_directory : ∃ (s s₁ s₂ : Server) (O : Set FileRef) (g : FileRef),
    s.Sound ∅ ∧ s.view.IsTree ∧ IsString dirPath ∧ fileRemove dirPath s = .ok () s₁ ∧ s₁.Sound O ∧
      s₁.view.IsTree ∧ fileCreate dirPath s₁ = .ok g s₂ ∧
      ¬ Server.Created s₁.view dirPath g s₂ := by
  have hrun : (World.boot dirDisk).any (fun w =>
      (fileRemove dirPath w.server).returned fun _ s₁ =>
        (fileCreate dirPath s₁).returned fun g s₂ =>
          decide (s₂.view.field g F_TYPE = FTYPE_DIR)) = true := by
    decide +kernel
  obtain ⟨w, hw, htest⟩ := (Option.any_eq_true _ _).mp hrun
  obtain ⟨mem, s, hinit, rfl⟩ := World.starts_boot hw
  obtain ⟨hs, hview, -⟩ := (wp_fsInit (E := fun _ _ => False) wellFormed_dirDisk mem).of_ok hinit
  have hs := wellFormed_dirDisk.sound hs hview
  have ht : s.view.IsTree := hview ▸ treeChecks_dirDisk.isTree
  have hstr : IsString dirPath := by
    rw [IsString]
    decide
  obtain ⟨_, s₁, hremove, htest⟩ := Outcome.returned_iff.mp htest
  obtain ⟨g, s₂, hcreate, htype⟩ := Outcome.returned_iff.mp htest
  obtain ⟨⟨O, h₁⟩, ht₁⟩ := (hs.wp_fileRemove_tree ht hstr (by decide)).of_ok hremove
  refine ⟨s, s₁, s₂, O, g, hs, ht, hstr, hremove, h₁, ht₁, hcreate, fun hc => ?_⟩
  rw [hc.empty.type] at htype
  exact absurd htype (by decide)

/-- The file "b" is created on a disk with the file "a", in the second entry of the root. -/
theorem file_create_iff_oneFile : ∃ (s s' : Server) (g : FileRef), s.view = oneFileDisk.backup ∧
    fileCreate [0x62#8] s = .ok g s' ∧ Server.Created s.view [0x62#8] g s' := by
  have hrun : (World.boot oneFileDisk).any
      (fun w => (fileCreate [0x62#8] w.server).returned fun _ _ => true) = true := by
    decide +kernel
  obtain ⟨w, hw, htest⟩ := (Option.any_eq_true _ _).mp hrun
  obtain ⟨mem, s, hinit, rfl⟩ := World.starts_boot hw
  obtain ⟨hs, hview, -⟩ :=
    (wp_fsInit (E := fun _ _ => False) wellFormed_oneFileDisk mem).of_ok hinit
  have hs := wellFormed_oneFileDisk.sound hs hview
  have ht : s.view.IsTree := hview ▸ treeChecks_oneFileDisk.isTree
  obtain ⟨g, s', hcreate, -⟩ := Outcome.returned_iff.mp htest
  have hcreated := (file_create_iff hs ht (by rw [IsString]; decide)).of_ok hcreate
  have hfree : oneFileDisk.backup.freeSlot .root = some (.entry 3 1) := by decide +kernel
  have hblank : oneFileDisk.backup.Blank (.entry 3 1) := View.blank_iff.mpr (by decide +kernel)
  -- the directory in which the name is missing is the root
  have hroot : ∀ d c, s.view.Lacks (pieces [0x62#8]) d c → d = .root := by
    intro d c hl
    obtain ⟨pre, hcs, hd⟩ := hl.leads
    have hpieces : pieces [0x62#8] = [] ++ [[0x62#8]] := by decide
    obtain ⟨rfl, -⟩ := List.append_inj' (hpieces.symm.trans hcs).symm rfl
    exact (View.leads_nil.mp hd).symm
  refine ⟨s, s', g, hview, hcreate, (hcreated.resolve_right ?_).mpr fun d c hl => ?_⟩
  · rintro ⟨d, c, hl, hnone, -⟩
    obtain rfl := hroot d c hl
    rw [hview, hfree] at hnone
    cases hnone
  · obtain rfl := hroot d c hl
    rw [Server.BlankSlot, hview, hfree]
    exact hblank

end MosRv.Fs
