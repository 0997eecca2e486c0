import MosRv.Fs.Files

/-!
# Walking a path

A path is walked from the root, one directory at a time.  A file that the walk comes through counts
as open from then on: it is live, its block is in the cache, and its `f_dir` has just been set.

A directory that has been made longer by `file_set_size` has holes, and the walk fills a hole that
it meets with a free block.  `Server.WalkReady` is what a walk needs: there are no holes, or the
pages of the free blocks hold nothing.
-/

namespace MosRv.Fs

open Prog View

/-- No directory that has a name has a hole. -/
def View.NoHoles (v : View) : Prop :=
  ∀ d, v.Live ∅ d → v.IsDir d → ∀ i, i < (v.field d F_SIZE).toNat / BY2BLK → i < NINDIRECT →
    v.num d (.of i) ≠ 0

/-- A name that can be looked up. -/
def IsName (name : List Byte) : Prop := ∃ c rest, name = c :: rest ∧ c ≠ 0#8

/-- A string has no zero byte in it. -/
def IsString (str : List Byte) : Prop := 0#8 ∉ str

/-- A walk meets no hole, or it fills holes with blocks that hold nothing. -/
def Server.WalkReady (s : Server) : Prop := s.view.NoHoles ∨ s.Clean

section

variable {O O' : Set FileRef} {s s' : Server} {v v' : View} {f g d : FileRef}
    {sl : Slot} {b i n : ℕ}

/-! ## More open files -/

lemma View.Live.mono (h : v.Live O f) (hO : O ⊆ O') : v.Live O' f := by
  induction h with
  | root => exact .root
  | entry hd hdir hsl hb hj hn ih => exact .entry ih hdir hsl hb hj (hn.imp_right fun hm => hO hm)

/-- To open a live file makes no other file live. -/
lemma View.live_insert (hf : v.Live O f) : v.Live (insert f O) g ↔ v.Live O g := by
  refine ⟨fun h => ?_, fun h => h.mono (Set.subset_insert f O)⟩
  induction h with
  | root => exact .root
  | entry hd hdir hsl hb hj hn ih =>
      rcases hn with hn | heq | hm
      · exact .entry ih hdir hsl hb hj (.inl hn)
      · rwa [heq]
      · exact .entry ih hdir hsl hb hj (.inr hm)

lemma View.Own.congr (h : v.Own O) (hlive : ∀ g, v.Live O' g → v.Live O g) : v.Own O' where
  magic := h.magic
  small := h.small
  reserved := h.reserved
  range g sl hg := h.range g sl (hlive g hg)
  inj g sl g' sl' hg hg' := h.inj g sl g' sl' (hlive g hg) (hlive g' hg')

/-- The files with names have the ownership invariant. -/
lemma View.Own.named (h : v.Own O) : v.Own ∅ := h.congr fun _ hg => hg.mono (Set.empty_subset O)

/-- A file that has just been looked up is opened. -/
lemma Server.Sound.insert (h : s.Sound O) (hf : s.view.Live O f) (hm : (s.cache f.block).isSome)
    (hd : s.view.Entry O d f) (haddr : s.view.field f F_DIR = d.addr) :
    s.Sound (insert f O) where
  started := h.started
  own := h.own.congr fun _ hg => (live_insert hf).mp hg
  parents := by
    have hentry : ∀ {e g}, s.view.Entry O e g → s.view.Entry (Insert.insert f O) e g :=
      fun he => ⟨he.known.imp_right fun hm => .inr hm, (live_insert hf).mpr he.live,
        he.isDir, he.block⟩
    refine ⟨h.parents.root, ?_⟩
    rintro g (rfl | hg) hlive hne
    · exact ⟨d, hentry hd, haddr⟩
    · obtain ⟨e, he, heq⟩ := h.parents.open_ g hg ((live_insert hf).mp hlive) hne
      exact ⟨e, hentry he, heq⟩
  opened := by
    rintro g (rfl | hg)
    · exact hm
    · exact h.opened g hg

/-! ## Looking up a name -/

lemma Server.Ready.of_filled (hne : n < NINDIRECT → s.view.num f (.of n) ≠ 0) : s.Ready f n where
  indirect hn hnot := absurd (num_of_not_hasSlot hnot) (hne hn)
  dir hn _ h0 := absurd h0 (hne hn)

lemma Server.Ready.of_clean (hc : s.Clean) : s.Ready f n where
  indirect _ _ b hb := hc b hb.lt hb.free
  dir _ _ _ := hc

/-- A block that is there is found where it is. -/
lemma View.Grown.view_eq {page : ℕ → Block} (h : v.Grown page f n v') (hne : v.num f (.of n) ≠ 0) :
    v' = v := by
  cases h with
  | same => rfl
  | data _ hempty _ => exact absurd hempty hne
  | both hnot _ _ => exact absurd (num_of_not_hasSlot hnot) hne

/-- A name that is found is not empty. -/
lemma named_of_strEq {blk : Block} {c : Byte} {name : List Byte} {j : ℕ}
    (h : blk.strEq j (c :: name) = true) (hc : c ≠ 0#8) : blk.byte j ≠ 0#8 := by
  rw [Block.strEq, decide_eq_true_iff] at h
  rw [h.1]
  exact hc

lemma findEntry_some {blk : Block} {name : List Byte} {j : ℕ}
    (h : findEntry blk name i n = some j) :
    j < i + n ∧ blk.strEq (256 * j) name = true := by
  induction n generalizing i with
  | zero => exact absurd h (by simp [findEntry])
  | succ n ih =>
      rw [findEntry] at h
      split_ifs at h with heq
      · obtain rfl := Option.some.inj h
        exact ⟨by omega, heq⟩
      · obtain ⟨hlt, hj⟩ := ih h
        exact ⟨by omega, hj⟩

/-- The parent of a file is stored in it; that makes no hole. -/
lemma View.NoHoles.parent (hh : v.NoHoles) (h : v.Own ∅) (hf : v.Live ∅ f) (w : Word) :
    (v.store f.block (f.word + F_DIR) w).NoHoles := by
  have hagree := h.agree_field hf (k := F_DIR) (by decide) (by decide) w
  intro d hd hdir i hi hn
  have hd₀ := hagree.live.mp hd
  rw [hagree.num hd₀ (Slot.data_of hn).ok]
  have hsize : (v.store f.block (f.word + F_DIR) w).field d F_SIZE = v.field d F_SIZE := by
    refine field_store fun hc => ?_
    have := (h.disjoint hd₀ hf (k := F_SIZE) (l := F_DIR) (by decide) (by decide) hc.1 hc.2).2
    exact absurd this (by decide)
  rw [hsize] at hi
  exact hh d hd₀ ((hagree.isDir hd₀).mp hdir) i hi hn

/-! ## What a walk keeps -/

/-- Fewer open files. -/
lemma View.Extends.anti (h : Extends O' v v') (hO : O ⊆ O') : Extends O v v' where
  live g hg := by
    induction hg with
    | root => exact .root
    | @entry d sl j hd hdir hsl hb hj hn ih =>
        have hd' := hd.mono hO
        have heq := h.num d sl hd' hsl.ok hb
        have hlive : v.Live O' (.entry (v.num d sl) j) :=
          .entry hd' hdir hsl hb hj (hn.imp_right fun hm => hO hm)
        have hname : v' (v.num d sl) (64 * j) = v (v.num d sl) (64 * j) :=
          h.field _ 0 hlive (by decide)
        have hn' : v'.Named (.entry (v.num d sl) j) ∨ FileRef.entry (v.num d sl) j ∈ O := by
          rwa [named_entry, hname, ← named_entry]
        rw [← heq] at hb hn' ⊢
        exact .entry ih ((h.isDir hd').mpr hdir) hsl hb hj hn'
  num g sl hg := h.num g sl (hg.mono hO)
  field g k hg := h.field g k (hg.mono hO)
  free := h.free
  nblocks := h.nblocks

/-- A walk leaves the files as they are, and opens some of them. -/
structure Server.Walked (O O' : Set FileRef) (s s' : Server) : Prop where
  subset : O ⊆ O'
  becomes : s.Becomes s'.view s'
  sound : s'.Sound O'
  ready : s'.WalkReady
  keeps : s.Keeps s'
  extends_ : Extends O s.view s'.view
  noHoles : s.view.NoHoles → s'.view.NoHoles ∧
    ∀ c, c < s.view.nblocks → s.view.Free c → s'.view.Free c

lemma Server.Walked.refl (h : s.Sound O) (hw : s.WalkReady) : s.Walked O O s :=
  ⟨subset_rfl, .refl, h, hw, .refl, .refl, fun hno => ⟨hno, fun _ _ hfree => hfree⟩⟩

lemma Server.Walked.trans {O'' : Set FileRef} {s'' : Server} (h : s.Walked O O' s')
    (h' : s'.Walked O' O'' s'') : s.Walked O O'' s'' where
  subset := h.subset.trans h'.subset
  becomes := h.becomes.trans h'.becomes
  sound := h'.sound
  ready := h'.ready
  keeps := h.keeps.trans h'.keeps h.extends_.nblocks
  extends_ := h.extends_.trans (h'.extends_.anti h.subset)
  noHoles hno := by
    obtain ⟨hno', hfree⟩ := h.noHoles hno
    obtain ⟨hno'', hfree'⟩ := h'.noHoles hno'
    exact ⟨hno'', fun c hc hf => hfree' c (h.extends_.nblocks ▸ hc) (hfree c hc hf)⟩

/-- Edits that extend the view. -/
lemma Server.Walked.of_runs (h : s.Sound O) (hw : s.WalkReady) (hr : s.Runs O s')
    (hk : s.Keeps s') (hext : Extends O s.view s'.view)
    (hsame : s.view.NoHoles → s'.view = s.view) : s.Walked O O s' where
  subset := subset_rfl
  becomes := hr.becomes
  sound := h.runs hr
  ready := by
    rcases hw with hno | hc
    · rw [Server.WalkReady, hsame hno]
      exact .inl hno
    · exact .inr (hk.clean hext.nblocks hc)
  keeps := hk
  extends_ := hext
  noHoles hno := by
    rw [hsame hno]
    exact ⟨hno, fun _ _ hfree => hfree⟩

/-- An entry of a directory that is found gets a pointer to the directory. -/
structure Server.Found (O : Set FileRef) (s : Server) (d f : FileRef) : Prop where
  live : s.view.Live ∅ f
  mapped : (s.cache f.block).isSome
  entry : s.view.Entry O d f
  addr : s.view.field f F_DIR = d.addr

/-- The file that is found is opened. -/
lemma Server.Walked.found (h : s.Walked O O s') (hf : s'.Found O d f) :
    s.Walked O (Insert.insert f O) s' where
  subset := Set.subset_insert f O
  becomes := h.becomes
  sound := h.sound.insert (hf.live.mono (Set.empty_subset O)) hf.mapped hf.entry hf.addr
  ready := h.ready
  keeps := h.keeps
  extends_ := h.extends_
  noHoles := h.noHoles

/-- Store the pointer to the parent. -/
lemma Server.Sound.wp_storeParent (h : s.Sound O) (hw : s.WalkReady) (hf₀ : s.view.Live ∅ f)
    (hroot : f ≠ .root) (hm : (s.cache f.block).isSome) (hd : s.view.Entry O d f)
    {E : FsErr → Server → Prop} {P : Panic → Prop} :
    wp (storeField f F_DIR d.addr) s (fun _ s' => s.Walked O O s' ∧ s'.Found O d f) E P := by
  have hbec : s.Becomes (s.view.store f.block (f.word + F_DIR) d.addr) _ :=
    becomes_store (i := f.word + F_DIR) d.addr
  have hf := hf₀.mono (Set.empty_subset O)
  have hs := h.own.shrinks_field hf (k := F_DIR) (by decide) (by decide) d.addr
  have hagree := h.own.agree_field hf (k := F_DIR) (by decide) (by decide) d.addr
  have hplain := h.own.plain_field hf F_DIR
  have hlive := hagree.live.mpr hf
  have hview := hbec.view
  have hr := hbec.runs (.single (.parent hf hroot hd))
  have hkeeps := h.keeps_field hf F_DIR d.addr
  have hext : Extends O s.view (s.view.store f.block (f.word + F_DIR) d.addr) := by
    refine ⟨fun g => hagree.live.mpr, fun g sl hg hsl _ => hagree.num hg hsl, fun g k hg hk => ?_,
      fun c hc => (free_store hplain hc).mp, hs.nblocks⟩
    refine field_store fun hc => ?_
    have := (h.own.disjoint hg hf (k := k) (l := F_DIR) (lt_trans hk (by decide)) (by decide)
      hc.1 hc.2).2
    subst this
    exact absurd hk (by decide)
  rw [storeField, wp_storeWord hm]
  refine ⟨⟨subset_rfl, hr.becomes, h.runs hr, ?_, ?_, ?_, ?_⟩, ⟨?_, hbec.mapped _ hm, ?_, ?_⟩⟩
  · rcases hw with hno | hc
    · rw [Server.WalkReady, hview]
      exact .inl (hno.parent h.own.named hf₀ _)
    · exact .inr (hkeeps.clean (by rw [hview, hs.nblocks]) hc)
  · exact hkeeps
  · rw [hview]
    exact hext
  · rw [hview]
    exact fun hno => ⟨hno.parent h.own.named hf₀ _, fun c hc => (free_store hplain hc).mpr⟩
  · rw [hview]
    exact (h.own.named.agree_field hf₀ (k := F_DIR) (by decide) (by decide) d.addr).live.mpr hf₀
  · rw [hview]
    exact h.own.entry_shrink hs hlive hroot hd
  · rw [hview, field, store_apply, if_pos ⟨rfl, rfl⟩]

/-- **What the loop of `dir_lookup` does.** -/
lemma Server.Sound.wp_dirLookupFrom {name : List Byte} (h : s.Sound O) (hw : s.WalkReady)
    (hO : d = .root ∨ d ∈ O) (hd₀ : s.view.Live ∅ d) (hdir : s.view.IsDir d) (hname : IsName name)
    (hle : i + n ≤ (s.view.field d F_SIZE).toNat / BY2BLK) :
    wp (dirLookupFrom d name i n) s (fun f s' => s.Walked O O s' ∧ s'.Found O d f)
      (fun _ s' => s.Walked O O s') Panic.Memory := by
  induction n generalizing i s with
  | zero =>
      rw [dirLookupFrom, wp_exit]
      exact .refl h hw
  | succ n ih =>
      have hd := hd₀.mono (Set.empty_subset O)
      have hfilled : s.view.NoHoles → i < NINDIRECT → s.view.num d (.of i) ≠ 0 :=
        fun hno => hno d hd₀ hdir i (by omega)
      have hget : s.Ready d i := by
        rcases hw with hno | hc
        · exact .of_filled (hfilled hno)
        · exact .of_clean hc
      rw [dirLookupFrom, wp_bind]
      refine (h.wp_fileGetBlock hd (h.mapped hO) hget).mono ?_ ?_ fun _ hp => hp
      · rintro b s₁ ⟨hi, hr, hk, hd₁, hgrown, hb, hne, hm⟩
        have hext := h.extends_grown hd hget hi hgrown
        have h₁ : s.Walked O O s₁ := by
          refine .of_runs h hw hr hk hext fun hno => hgrown.view_eq (hfilled hno hi)
        have hdir₁ : s₁.view.IsDir d := (hext.isDir hd).mpr hdir
        have hd₁' := (hext.anti (Set.empty_subset O)).live d hd₀
        rw [wp_bind, wp_loadBlock hm]
        cases hfind : findEntry (s₁.view b) name 0 FILE2BLK with
        | none =>
            have hsize := hext.field d F_SIZE hd (by decide)
            refine (ih h₁.sound h₁.ready hd₁' hdir₁ (by rw [hsize]; omega)).mono ?_
              ?_ fun _ hp => hp
            · rintro f s₂ ⟨h₂, hfound⟩
              exact ⟨h₁.trans h₂, hfound⟩
            · intro e s₂ h₂
              exact h₁.trans h₂
        | some j =>
            obtain ⟨hj, heq⟩ := findEntry_some hfind
            obtain ⟨c, rest, rfl, hc⟩ := hname
            have hnamed : s₁.view.Named (.entry b j) := by
              have hbyte := named_of_strEq heq hc
              rwa [Named, FileRef.entry, show 4 * (64 * j) = 256 * j by omega]
            have hsl : (Slot.of i).Data := Slot.data_of hi
            subst hb
            have hlive : s₁.view.Live ∅ (.entry (s₁.view.num d (.of i)) j) :=
              .entry hd₁' hdir₁ hsl hne (by omega) (.inl hnamed)
            have hroot : FileRef.entry (s₁.view.num d (.of i)) j ≠ .root := by
              intro hc
              have hgt := (h₁.sound.own.range d _ hd₁ hsl.ok hne).1
              have h2 := @two_le_lastReserved s₁.view
              have h1 : s₁.view.num d (.of i) = 1 := congrArg FileRef.block hc
              omega
            have hentry : s₁.view.Entry O d (.entry (s₁.view.num d (.of i)) j) :=
              ⟨hO, hd₁, hdir₁, .of i, hsl, rfl⟩
            rw [wp_bind]
            refine (h₁.sound.wp_storeParent h₁.ready hlive hroot hm hentry).mono ?_
              (fun _ _ hf => hf) fun _ hp => hp
            rintro - s₂ ⟨h₂, hfound⟩
            exact ⟨h₁.trans h₂, hfound⟩
      · rintro e s₁ ⟨hr, hk, hgrown⟩
        refine .of_runs h hw hr hk (h.extends_notGrown hd hget hgrown) fun hno => ?_
        -- nothing was missing, so nothing has changed
        generalize s₁.view = v₁ at hgrown
        cases hgrown with
        | same => rfl
        | half hn hnot hb => exact absurd (num_of_not_hasSlot hnot) (hfilled hno hn)

lemma Server.Sound.wp_dirLookup {name : List Byte} (h : s.Sound O) (hw : s.WalkReady)
    (hO : d = .root ∨ d ∈ O) (hd : s.view.Live ∅ d) (hdir : s.view.IsDir d) (hname : IsName name) :
    wp (dirLookup d name) s (fun f s' => s.Walked O O s' ∧ s'.Found O d f)
      (fun _ s' => s.Walked O O s') Panic.Memory := by
  rw [dirLookup, wp_bind, loadField, wp_loadWord (h.mapped hO)]
  exact h.wp_dirLookupFrom hw hO hd hdir hname (by rw [Nat.zero_add]; exact le_rfl)

/-! ## Paths -/

/-- The rest of a path after some slashes. -/
lemma skipSlash_head {path rest : List Byte} {c : Byte} (h : skipSlash path = c :: rest) :
    c ≠ slash := by
  have hd := List.head?_dropWhile_not (· = slash) path
  rw [← skipSlash, h] at hd
  simpa using hd

lemma isString_skipSlash {path : List Byte} (h : IsString path) : IsString (skipSlash path) :=
  fun hm => h ((List.dropWhile_suffix _).subset hm)

lemma isName_takeWhile {path : List Byte} (hstr : IsString path) (hne : path ≠ [])
    (hslash : ∀ c rest, path = c :: rest → c ≠ slash) :
    IsName (path.takeWhile (· ≠ slash)) := by
  obtain ⟨c, rest, rfl⟩ := List.exists_cons_of_ne_nil hne
  refine ⟨c, rest.takeWhile (· ≠ slash), ?_, fun hc => hstr (hc ▸ List.mem_cons_self)⟩
  rw [List.takeWhile_cons, if_pos]
  simpa using hslash c rest rfl

/-- A walk from `s` ended at `s'`, with the file `file` or with an error. -/
def Server.WalkedTo (O : Set FileRef) (s : Server) (file : Option FileRef) (s' : Server) : Prop :=
  ∃ O', s.Walked O O' s' ∧ ∀ g, file = some g → (g = .root ∨ g ∈ O') ∧ s'.view.Live ∅ g

lemma Server.Walked.to_none (h : s.Walked O O' s') : s.WalkedTo O none s' := ⟨O', h, nofun⟩

lemma Server.Sound.walkedTo (h : s.Sound O) (hw : s.WalkReady) (hO : f = .root ∨ f ∈ O)
    (hf : s.view.Live ∅ f) : s.WalkedTo O (some f) s := by
  refine ⟨O, .refl h hw, ?_⟩
  rintro g ⟨⟩
  exact ⟨hO, hf⟩

/-- **What a walk does.** -/
lemma Server.Sound.wp_walkFrom {path : List Byte} {dir : Option FileRef} (h : s.Sound O)
    (hw : s.WalkReady) (hO : f = .root ∨ f ∈ O) (hf : s.view.Live ∅ f) (hstr : IsString path)
    (hslash : ∀ c rest, path = c :: rest → c ≠ slash) {E : FsErr → Server → Prop} :
    wp (walkFrom n path dir f) s (fun w s' => s.WalkedTo O w.file s') E Panic.Memory := by
  induction n generalizing path dir f s O with
  | zero =>
      rw [walkFrom, wp_pure]
      exact h.walkedTo hw hO hf
  | succ n ih =>
      have hsame := (Server.Walked.refl h hw).to_none
      rw [walkFrom, wp_ite]
      refine ⟨fun _ => h.walkedTo hw hO hf, fun hne => ?_⟩
      rw [wp_ite]
      refine ⟨fun _ => hsame, fun _ => ?_⟩
      rw [wp_bind, loadField, wp_loadWord (h.mapped hO), wp_ite]
      refine ⟨fun _ => hsame, fun htype => ?_⟩
      have hdir : s.view.IsDir f := not_not.mp htype
      have hname := isName_takeWhile hstr hne hslash
      rw [wp_bind, wp_attempt]
      refine (h.wp_dirLookup hw hO hf hdir hname).mono ?_ ?_ fun _ hp => hp
      · rintro g s₁ ⟨h₁, hfound⟩
        have h₂ := h₁.found hfound
        have hstr' : IsString (path.dropWhile (· ≠ slash)) :=
          fun hm => hstr ((List.dropWhile_suffix _).subset hm)
        refine (ih h₂.sound h₂.ready (.inr (Set.mem_insert g O)) hfound.live
          (isString_skipSlash hstr') fun c rest => skipSlash_head).mono ?_ (fun _ _ hf => hf)
          fun _ hp => hp
        rintro w s₃ ⟨O', h₃, hw₃⟩
        exact ⟨O', h₂.trans h₃, hw₃⟩
      · intro e s₁ h₁
        rw [wp_ite]
        exact ⟨fun _ => h₁.to_none, fun _ => h₁.to_none⟩

/-- **What `file_open` does.** -/
lemma Server.Sound.wp_fileOpen {path : List Byte} (h : s.Sound O) (hw : s.WalkReady)
    (hstr : IsString path) :
    wp (fileOpen path) s
      (fun f s' => ∃ O', s.Walked O O' s' ∧ (f = .root ∨ f ∈ O') ∧ s'.view.Live ∅ f)
      (fun _ s' => ∃ O', s.Walked O O' s') Panic.Memory := by
  rw [fileOpen, wp_bind, walkPath]
  refine (h.wp_walkFrom hw (.inl rfl) .root (isString_skipSlash hstr)
    fun c rest => skipSlash_head).mono ?_ (fun _ _ hf => hf) fun _ hp => hp
  rintro ⟨err, dir, file, elem⟩ s₁ ⟨O', h₁, hfile⟩
  cases err with
  | some e => exact ⟨O', h₁⟩
  | none =>
      cases file with
      | none => exact ⟨O', h₁⟩
      | some f => exact ⟨O', h₁, hfile f rfl⟩

/-! ## Removing a file -/

lemma clearName_eq (v : View) (f : FileRef) :
    Function.update v f.block ((v f.block).setByte (4 * f.word) 0#8) = v.clearName f := by
  have hdiv : 4 * f.word / 4 = f.word := by omega
  have hmod : 4 * f.word % 4 = 0 := by omega
  rw [View.clearName, View.store, Block.setByte, hdiv, hmod]

/-- What removing a file does to a view. -/
def View.remove (v : View) (f : FileRef) : View := (v.truncate f 0#32).clearName f

lemma View.Own.edits_remove (h : v.Own O) (hf : v.Live O f) (hO : f = .root ∨ f ∈ O) :
    Edits O v (v.remove f) ∧ (v.remove f).Live O f := by
  obtain ⟨he, hl⟩ := h.edits_truncate hf 0#32
  have he₂ : Edits O v (v.remove f) := he.tail (.clearName hl)
  exact ⟨he₂, (he.own h).live_clearName hl hO hl⟩

/-- **What `file_remove` does** to the file that it has found. -/
lemma Server.Sound.wp_removeFound (h : s.Sound O) (hO : f = .root ∨ f ∈ O)
    (hf₀ : s.view.Live ∅ f) {E : FsErr → Server → Prop} :
    wp (do
      fileTruncate f 0#32
      storeBlock f.block ((← loadBlock f.block).setByte (4 * f.word) 0#8)
      fileFlush f
      flushDir f) s (fun _ s' => s.Becomes (s.view.remove f) s') E Panic.Memory := by
  have hf := hf₀.mono (Set.empty_subset O)
  have hm := h.mapped hO
  rw [wp_bind]
  refine (h.wp_fileTruncate hf hm 0#32).mono ?_ (fun _ _ he => he) fun _ hp => hp
  intro _ s₂ hbec₂
  rw [wp_bind, wp_loadBlock (hbec₂.mapped _ hm), wp_bind, wp_storeBlock (hbec₂.mapped _ hm)]
  have hput : s₂.Becomes (s₂.view.clearName f) _ := clearName_eq s₂.view f ▸ becomes_put _
  rw [hbec₂.view] at hput
  have hbec₃ : s.Becomes (s.view.remove f) _ := hbec₂.trans hput
  rw [hbec₂.view]
  generalize s₂.put f.block _ = s₃ at hbec₃ ⊢
  obtain ⟨he, hl⟩ := h.own.edits_remove hf hO
  have h₃ := h.runs (hbec₃.runs he)
  have hl₃ : s₃.view.Live O f := hbec₃.view ▸ hl
  rw [wp_bind]
  refine (h₃.wp_fileFlush hl₃ (h₃.mapped hO)).mono ?_ (fun _ _ he => he) fun _ hp => hp
  intro _ s₄ hs₄
  refine ((h₃.same hs₄).wp_flushDir hO (hs₄.becomes.view ▸ hl₃)).mono ?_ (fun _ _ he => he)
    fun _ hp => hp
  intro _ s₅ hs₅
  have hbec := (hs₄.trans hs₅).becomes
  rw [hbec₃.view] at hbec
  exact hbec₃.trans hbec

/-- **What `file_remove` does.** -/
lemma Server.Sound.wp_fileRemove {path : List Byte} (h : s.Sound O) (hw : s.WalkReady)
    (hstr : IsString path) :
    wp (fileRemove path) s
      (fun _ s' => ∃ O' s₁ f, fileOpen path s = .ok f s₁ ∧ s.Walked O O' s₁ ∧
        (f = .root ∨ f ∈ O') ∧ s₁.view.Live ∅ f ∧ s₁.Becomes (s₁.view.remove f) s')
      (fun _ s' => ∃ O', s.Walked O O' s') Panic.Memory := by
  rw [fileRemove, wp_bind]
  refine ((h.wp_fileOpen hw hstr).and (wp_self _ _)).mono ?_ (fun _ _ he => he.1) fun _ hp => hp.1
  rintro f s₁ ⟨⟨O', h₁, hO, hf₀⟩, hopen⟩
  refine (h₁.sound.wp_removeFound hO hf₀).mono ?_ (fun _ _ he => he) fun _ hp => hp
  intro _ s' hbec
  exact ⟨O', s₁, f, hopen, h₁, hO, hf₀, hbec⟩

end

end MosRv.Fs
